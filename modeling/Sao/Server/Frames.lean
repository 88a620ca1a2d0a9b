import Sao.Server.Session

/-!
# The bytes of the frames a session sends for a command

* `chunkFrame_fits`, `exitFrame_fits` — neither a chunk of at most 16384 bytes nor an exit code
  makes a payload over the maximum.
* `encode_cons` — the first five bytes of an encoded frame.
* `encode_chunkFrame_ends`, `length_encode_exitFrame` — how a chunk frame ends, how long an exit
  frame is.
-/

namespace Sao.Session

open MsgType Text Bytes

/-! ## JSON texts -/

/-- A base64 character is printed as it is, in one byte. -/
theorem escapeChar_base64 {c : Char} (h : Base64.IsBase64Char c) : Json.escapeChar c = [c] ∧ c.toNat < 128 := by
  have key : Base64.alphabet.all (fun c => Json.escapeChar c == [c] && c.toNat < 128) = true := by decide +kernel
  rcases h with h | rfl
  · simpa using List.all_eq_true.1 key c h
  · decide

theorem flatMap_escapeChar_encode (b : Bytes) :
    (Base64.encode b).flatMap Json.escapeChar = Base64.encode b := by
  have key : ∀ s : Str, (∀ c ∈ s, Base64.IsBase64Char c) → s.flatMap Json.escapeChar = s := by
    intro s hs
    induction s with
    | nil => rfl
    | cons c s ih =>
      rw [List.flatMap_cons, (escapeChar_base64 (hs c List.mem_cons_self)).1,
        ih fun d hd => hs d (List.mem_cons_of_mem _ hd)]
      rfl
  exact key _ fun c hc => Base64.mem_encode hc

theorem print_streamJson (b : Bytes) :
    Json.print (streamJson b) = "\x7b\"data\":\"".toList ++ Base64.encode b ++ "\"\x7d".toList := by
  have hdata : Json.printChars "data".toList = "data\"".toList := by decide
  have hstr : Json.printChars (Base64.encode b) = Base64.encode b ++ "\"".toList := by
    rw [Json.printChars, flatMap_escapeChar_encode]
  simp only [Json.print, streamJson, Json.printMembers, Json.printMember, Json.Scalar.print, hdata, hstr]
  simp

theorem print_execExitJson (code : Int32) : Json.print (execExitJson code) =
    "\x7b\"exit_code\":".toList ++ Json.printNum code.toInt ++ ",\"signal\":null\x7d".toList := by
  have hcode : Json.printChars "exit_code".toList = "exit_code\"".toList := by decide
  have hsig : Json.printChars "signal".toList = "signal\"".toList := by decide
  simp only [Json.print, execExitJson, Json.printMembers, Json.printMember, Json.Scalar.print, hcode, hsig]
  simp

/-! ## Lengths -/

theorem length_toVec_streamJson (b : Bytes) :
    (Json.toVec (streamJson b)).length = 11 + (b.length + 2) / 3 * 4 := by
  have hb : (utf8 (Base64.encode b)).length = (Base64.encode b).length :=
    length_utf8_ascii fun c hc => (escapeChar_base64 (Base64.mem_encode hc)).2
  have h1 : (utf8 "\x7b\"data\":\"".toList).length = 9 := by decide
  have h2 : (utf8 "\"\x7d".toList).length = 2 := by decide
  rw [Json.toVec, print_streamJson, utf8_append, utf8_append, List.length_append, List.length_append, hb, h1, h2,
    Base64.length_encode]
  omega

theorem chunkFrame_payload (c : StreamChunk) : (chunkFrame c).payload = Json.toVec (streamJson c.data) := rfl

theorem chunkFrame_fits {c : StreamChunk} (h : c.Ok) : (chunkFrame c).Fits DEFAULT_MAX_PAYLOAD_LEN := by
  have hmax : DEFAULT_MAX_PAYLOAD_LEN.toNat = 1048576 := by decide
  have hlen := h.2
  unfold Frame.Fits
  rw [chunkFrame_payload, length_toVec_streamJson, hmax]
  unfold READ_BUF_LEN at hlen
  omega

theorem length_decimal {n k : Nat} (hk : 0 < k) (h : n < 10 ^ k) : 0 < (decimal n).length ∧ (decimal n).length ≤ k :=
  ⟨Nat.length_toDigits_pos, (Nat.length_toDigits_le_iff (by omega) hk).2 h⟩

theorem length_printNum (code : Int32) :
    1 ≤ (Json.printNum code.toInt).length ∧ (Json.printNum code.toInt).length ≤ 11 := by
  have h1 := code.toInt_lt
  have h2 := code.le_toInt
  have h := length_decimal (n := code.toInt.natAbs) (k := 10) (by omega) (by omega)
  unfold Json.printNum
  split
  · simp
    omega
  · omega

theorem printNum_ascii (n : Int) : ∀ c ∈ Json.printNum n, c.toNat < 128 := by
  have hd : ∀ c ∈ decimal n.natAbs, c.toNat < 128 := fun c hc => by have := decimal_digit hc; omega
  unfold Json.printNum
  split
  · intro c hc
    rcases List.mem_append.1 hc with hc | hc
    · have : c = '-' := by simpa using hc
      subst this
      decide
    · exact hd c hc
  · exact hd

theorem length_toVec_execExitJson (code : Int32) :
    (Json.toVec (execExitJson code)).length = 28 + (Json.printNum code.toInt).length := by
  have hn : (utf8 (Json.printNum code.toInt)).length = (Json.printNum code.toInt).length :=
    length_utf8_ascii (printNum_ascii _)
  have h1 : (utf8 "\x7b\"exit_code\":".toList).length = 13 := by decide
  have h2 : (utf8 ",\"signal\":null\x7d".toList).length = 15 := by decide
  rw [Json.toVec, print_execExitJson, utf8_append, utf8_append, List.length_append, List.length_append, hn, h1, h2]
  omega

theorem exitFrame_payload (code : Int32) : (exitFrame code).payload = Json.toVec (execExitJson code) := rfl

theorem exitFrame_fits (code : Int32) : (exitFrame code).Fits DEFAULT_MAX_PAYLOAD_LEN := by
  have hmax : DEFAULT_MAX_PAYLOAD_LEN.toNat = 1048576 := by decide
  have hlen := length_printNum code
  unfold Frame.Fits
  rw [exitFrame_payload, length_toVec_execExitJson, hmax]
  omega

theorem length_encode_exitFrame (code : Int32) :
    38 ≤ (encode (exitFrame code)).length ∧ (encode (exitFrame code)).length ≤ 48 := by
  have hlen := length_printNum code
  rw [length_encode, exitFrame_payload, length_toVec_execExitJson]
  omega

/-! ## Bytes -/

/-- An encoded frame begins with magic, version and message type. -/
theorem encode_cons (f : Frame) : encode f = 0x53 :: 0x41 :: 0x4F :: 0x01 :: f.msgType ::
    (toBeBytes (UInt32.ofNat f.payload.length) ++ f.payload) := rfl

/-- The length of an exit frame is in its last length byte. -/
theorem encode_exitFrame_cons (code : Int32) : ∃ n : UInt8, n.toNat < 48 ∧
    encode (exitFrame code) = 0x53 :: 0x41 :: 0x4F :: 0x01 :: EXEC_EXIT :: 0 :: 0 :: 0 :: n ::
      (exitFrame code).payload := by
  have hlen := length_printNum code
  have hp : (exitFrame code).payload.length < 48 := by
    rw [exitFrame_payload, length_toVec_execExitJson]
    omega
  refine ⟨UInt8.ofNat (exitFrame code).payload.length, ?_, ?_⟩
  · rw [UInt8.toNat_ofNat']
    omega
  · have hbe : ∀ n : Nat, n < 48 → toBeBytes (UInt32.ofNat n) = [0, 0, 0, UInt8.ofNat n] := by decide +kernel
    rw [encode_cons, hbe _ hp]
    rfl

/-- A chunk frame ends with a quote and a brace. -/
theorem encode_chunkFrame_ends (c : StreamChunk) : ∃ w, encode (chunkFrame c) = w ++ [0x22, 0x7D] := by
  have hp : (chunkFrame c).payload = utf8 ("\x7b\"data\":\"".toList ++ Base64.encode c.data) ++ [0x22, 0x7D] := by
    rw [chunkFrame_payload, Json.toVec, print_streamJson, utf8_append]
    rfl
  refine ⟨writeHeader VERSION (chunkFrame c).msgType (UInt32.ofNat (chunkFrame c).payload.length) ++
    utf8 ("\x7b\"data\":\"".toList ++ Base64.encode c.data), ?_⟩
  rw [List.append_assoc, ← hp]
  rfl

theorem chunkFrame_msgType (c : StreamChunk) : (chunkFrame c).msgType ≠ EXEC_EXIT := by
  obtain ⟨fd, data⟩ := c
  cases fd with
  | out => exact show STREAM_STDOUT ≠ EXEC_EXIT by decide
  | err => exact show STREAM_STDERR ≠ EXEC_EXIT by decide

theorem exitFrame_msgType (code : Int32) : (exitFrame code).msgType = EXEC_EXIT := rfl

theorem chunkFrame_ne_exitFrame (c : StreamChunk) (code : Int32) : chunkFrame c ≠ exitFrame code := by
  intro h
  exact chunkFrame_msgType c (by rw [h, exitFrame_msgType])

/-! ## Torn frames

What a frame cut off in the middle and the frame written behind it look like to a reader. -/

/-- The frames of the output of a command. -/
def streamFrames (cs : List StreamChunk) : List Frame := cs.map chunkFrame

@[simp] theorem streamFrames_nil : streamFrames [] = [] := rfl

@[simp] theorem streamFrames_append (cs ds : List StreamChunk) :
    streamFrames (cs ++ ds) = streamFrames cs ++ streamFrames ds := List.map_append

@[simp] theorem streamFrames_cons (c : StreamChunk) (cs : List StreamChunk) :
    streamFrames (c :: cs) = chunkFrame c :: streamFrames cs := rfl

theorem streamFrames_fits {cs : List StreamChunk} (h : ∀ c ∈ cs, c.Ok) :
    ∀ f ∈ streamFrames cs, f.Fits DEFAULT_MAX_PAYLOAD_LEN := by
  intro f hf
  obtain ⟨c, hc, rfl⟩ := List.mem_map.1 hf
  exact chunkFrame_fits (h c hc)

theorem length_encode_exit124 : (encode (exitFrame 124)).length = 40 := by
  have hn : (Json.printNum (124 : Int32).toInt).length = 3 := by decide
  rw [length_encode, exitFrame_payload, length_toVec_execExitJson, hn]

/-- Nothing but a whole exit frame reads as one when the timeout's frame ends it: the frame would
have to begin again inside the header. -/
theorem torn_exit {w : Bytes} {code : Int32} (hw : w ≠ []) : w ++ encode (exitFrame 124) ≠ encode (exitFrame code) := by
  intro h
  have hlen : w.length ≤ 8 := by
    have := congrArg List.length h
    have := length_encode_exitFrame code
    simp only [List.length_append, length_encode_exit124] at *
    omega
  obtain ⟨n, hn, hcode⟩ := encode_exitFrame_cons code
  rw [hcode, encode_cons (exitFrame 124)] at h
  have hn' : n ≠ 0x53 := by
    rintro rfl
    exact absurd hn (by decide)
  -- the magic of the second frame against the header of the first, byte by byte
  rcases w with _ | ⟨b0, _ | ⟨b1, _ | ⟨b2, _ | ⟨b3, _ | ⟨b4, _ | ⟨b5, _ | ⟨b6, _ | ⟨b7, _ | ⟨b8, w⟩⟩⟩⟩⟩⟩⟩⟩⟩
  · exact hw rfl
  · simp at h
  · simp at h
  · simp at h
  · simp [EXEC_EXIT] at h
  · simp at h
  · simp at h
  · simp at h
  · simp [hn'.symm] at h
  · simp only [List.length_cons] at hlen
    omega

/-- The end of a chunk frame is not the beginning of an exit frame that is this short. -/
theorem torn_chunk_rest {c : StreamChunk} {w rest t : Bytes} {code : Int32} (hrest : rest ≠ [])
    (hc : encode (chunkFrame c) = w ++ rest) : encode (exitFrame 124) ≠ rest ++ (t ++ encode (exitFrame code)) := by
  intro h
  have hlen : rest.length ≤ 2 := by
    have := congrArg List.length h
    have := length_encode_exitFrame code
    simp only [List.length_append, length_encode_exit124] at *
    omega
  obtain ⟨p, hp⟩ := encode_chunkFrame_ends c
  rw [hc] at hp
  rw [encode_cons] at h
  rcases rest with _ | ⟨b0, _ | ⟨b1, _ | ⟨b2, rest⟩⟩⟩
  · exact hrest rfl
  · have hb : b0 = 0x7D := by
      have := congrArg List.getLast? hp
      simpa using this
    subst hb
    simp at h
  · have hb : [b0, b1] = [0x22, 0x7D] := (List.append_inj' hp rfl).2
    cases hb
    simp at h
  · simp only [List.length_cons] at hlen
    omega

section Torn

variable {cs taken more : List StreamChunk} {c : StreamChunk} {w rest r : Bytes} {k : Nat} {code : Int32}

/-- A stream that splits into some chunk frames and an exit frame, compared with one that begins
with other chunk frames of the same command. -/
theorem split_cases (hcs : ∀ c ∈ cs, c.Ok) (htaken : taken <+: cs)
    (h : encodeAll (streamFrames taken) ++ r = encodeAll (streamFrames (cs.take k)) ++ encode (exitFrame code)) :
    ∃ ds, cs.take k = taken ++ ds ∧ r = encodeAll (streamFrames ds) ++ encode (exitFrame code) := by
  have hft : ∀ f ∈ streamFrames taken, f.Fits DEFAULT_MAX_PAYLOAD_LEN :=
    streamFrames_fits fun c hc => hcs c (htaken.subset hc)
  have hfk : ∀ f ∈ streamFrames (cs.take k), f.Fits DEFAULT_MAX_PAYLOAD_LEN :=
    streamFrames_fits fun c hc => hcs c (List.mem_of_mem_take hc)
  have hk : cs.take k <+: cs := List.take_prefix k cs
  -- of two prefixes one is a prefix of the other; the chunk frames after the shorter are no exit frame
  rcases List.prefix_or_prefix_of_prefix htaken hk with ⟨ds, hds⟩ | ⟨ds, hds⟩
  · refine ⟨ds, hds.symm, ?_⟩
    rw [← hds, streamFrames_append, encodeAll_append, List.append_assoc, List.append_cancel_left_eq] at h
    exact h
  · cases ds with
    | nil =>
      rw [List.append_nil] at hds
      refine ⟨[], by rw [hds, List.append_nil], ?_⟩
      rw [hds, List.append_cancel_left_eq] at h
      exact h
    | cons d ds =>
      rw [← hds, streamFrames_append, encodeAll_append, List.append_assoc, List.append_cancel_left_eq,
        streamFrames_cons, encodeAll_cons, List.append_assoc] at h
      have hd : d.Ok := hcs d (htaken.subset (by rw [← hds]; simp))
      have h' : encode (chunkFrame d) ++ (encodeAll (streamFrames ds) ++ r) = encode (exitFrame code) ++ [] := by
        rw [h, List.append_nil]
      exact absurd (encode_append_inj (chunkFrame_fits hd) (exitFrame_fits code) h').1 (chunkFrame_ne_exitFrame d code)

/-- **A chunk frame cut in the middle** leaves no whole number of frames. -/
theorem torn_chunk (hcs : ∀ c ∈ cs, c.Ok) (heq : cs = taken ++ c :: more)
    (hw : encode (chunkFrame c) = w ++ rest) (hw0 : w ≠ []) (hr0 : rest ≠ []) :
    encodeAll (streamFrames taken) ++ (w ++ encode (exitFrame 124)) ≠
      encodeAll (streamFrames (cs.take k)) ++ encode (exitFrame code) := by
  intro h
  obtain ⟨ds, hds, hr⟩ := split_cases hcs (heq ▸ List.prefix_append _ _) h
  cases ds with
  | nil => exact torn_exit hw0 (by simpa using hr)
  | cons d ds =>
    -- the chunk behind `taken` is the torn one
    have hd : d = c := by
      have hpre : taken ++ d :: ds <+: taken ++ c :: more := by
        rw [← hds, ← heq]
        exact List.take_prefix k cs
      obtain ⟨u, hu⟩ := (List.prefix_append_right_inj taken).1 hpre
      simp only [List.cons_append, List.cons.injEq] at hu
      exact hu.1
    subst hd
    rw [streamFrames_cons, encodeAll_cons, hw, List.append_assoc, List.append_assoc, List.append_cancel_left_eq] at hr
    exact torn_chunk_rest hr0 hw hr

/-- **An exit frame followed by the timeout's**, or a part of it, is not one exit frame. -/
theorem torn_end (hcs : ∀ c ∈ cs, c.Ok) (hw0 : w ≠ []) :
    encodeAll (streamFrames cs) ++ (w ++ encode (exitFrame 124)) ≠
      encodeAll (streamFrames (cs.take k)) ++ encode (exitFrame code) := by
  intro h
  obtain ⟨ds, hds, hr⟩ := split_cases hcs (List.prefix_refl cs) h
  have hnil : ds = [] := by
    have := congrArg List.length hds
    simp only [List.length_take, List.length_append] at this
    exact List.length_eq_zero_iff.1 (by omega)
  subst hnil
  exact torn_exit hw0 (by simpa using hr)

/-- Without an exit frame the stream does not end in one. -/
theorem no_exit (hcs : ∀ c ∈ cs, c.Ok) :
    encodeAll (streamFrames cs) ≠ encodeAll (streamFrames (cs.take k)) ++ encode (exitFrame code) := by
  intro h
  have h' : encodeAll (streamFrames cs) ++ [] = encodeAll (streamFrames (cs.take k)) ++ encode (exitFrame code) := by
    rw [List.append_nil, h]
  obtain ⟨ds, hds, hr⟩ := split_cases hcs (List.prefix_refl cs) h'
  exact encode_ne_nil _ (List.append_eq_nil_iff.1 hr.symm).2

end Torn

end Sao.Session
