import Sao.Protocol.FrameStream

/-!
# The two ends of a stream, in frames

One end has put frames on the stream, the last of them perhaps only in part; the other has read some of
what has arrived, which is a prefix of what was put there.

* `Hears.reads_isPrefix` — the frames read are the first of those begun.
* `Hears.read_error` — the only error a reader meets is the end of what has arrived so far.
* `Hears.next_frame` — once everything has arrived, the next frame can be read.
* `Hears.caught_up` — an end that has read all frames has met one that is not writing.
* `wanted` — what the `read_exact` in progress still asks for.
-/

namespace Sao

variable {M : UInt32} {received inbuf out rest : Bytes} {reads begun : List Frame}

/-- An end that has read the frames `reads`, with what has arrived and what of it is left. -/
structure Hears (M : UInt32) (received inbuf : Bytes) (reads : List Frame) : Prop where
  stream : received = encodeAll reads ++ inbuf
  fits : ∀ f ∈ reads, f.Fits M

/-- An end that has begun the frames `begun`, with what is still to be put on the stream of the last. -/
structure Says (M : UInt32) (out rest : Bytes) (begun : List Frame) : Prop where
  stream : out ++ rest = encodeAll begun
  fits : ∀ f ∈ begun, f.Fits M

/-- More arrives. -/
theorem prefix_arrived (h : received <+: out) (n : Nat) : received ++ (out.drop received.length).take n <+: out := by
  obtain ⟨rest, rfl⟩ := h
  rw [List.drop_left]
  exact (List.prefix_append_right_inj received).2 (List.take_prefix n rest)

theorem all_arrived (h : received <+: out) (hall : out.drop received.length = []) : received = out := by
  obtain ⟨rest, rfl⟩ := h
  rw [List.drop_left] at hall
  rw [hall, List.append_nil]

namespace Hears

theorem read (h : Hears M received inbuf reads) {f : Frame} {r : Bytes} (hr : readFrame M inbuf = .ok (f, r)) :
    Hears M received r (reads ++ [f]) := by
  obtain ⟨hf, hs⟩ := readFrame_ok_iff.1 hr
  refine ⟨?_, fun g hg => ?_⟩
  · simp [h.stream, hs]
  · rcases List.mem_append.1 hg with hg | hg
    · exact h.fits g hg
    · rw [List.mem_singleton.1 hg]
      exact hf

section Link

variable (ha : Hears M received inbuf reads) (hb : Says M out rest begun) (hlink : received <+: out)

include ha hb hlink

/-- What has not been read begins the frames that follow those read. -/
theorem split_begun : ∃ fs, begun = reads ++ fs ∧ inbuf <+: encodeAll fs := by
  have h : encodeAll reads ++ inbuf <+: encodeAll begun := by
    rw [← ha.stream, ← hb.stream]
    exact hlink.trans (List.prefix_append _ _)
  exact prefix_frames ha.fits hb.fits h

theorem reads_isPrefix : reads <+: begun := by
  obtain ⟨fs, h, -⟩ := split_begun ha hb hlink
  exact ⟨fs, h.symm⟩

theorem read_prefix {f : Frame} {r : Bytes} (hr : readFrame M inbuf = .ok (f, r)) : reads ++ [f] <+: begun :=
  reads_isPrefix (ha.read hr) hb hlink

theorem caught_up (h : reads = begun) : rest = [] := by
  have hlen := hlink.length_le
  have hout := congrArg List.length hb.stream
  rw [ha.stream, h] at hlen
  simp only [List.length_append] at hlen hout
  exact List.length_eq_zero_iff.1 (by omega)

theorem read_error {e : ProtocolError} (hr : readFrame M inbuf = .error e) : e = .unexpectedEof := by
  obtain ⟨fs, hfs, hin⟩ := split_begun ha hb hlink
  suffices ht : Truncated M inbuf by
    rw [readFrame_truncated ht, Except.error.injEq] at hr
    exact hr.symm
  cases fs with
  | nil =>
    left
    rw [List.prefix_nil.1 hin]
    simp
  | cons f fs =>
    have hf : f.Fits M := hb.fits f (by rw [hfs]; simp)
    obtain ⟨t, ht⟩ := hin
    rw [encodeAll_cons, List.append_eq_append_iff] at ht
    rcases ht with ⟨u, hu, -⟩ | ⟨u, hu, -⟩
    · by_cases hu0 : u = []
      · rw [hu0, List.append_nil] at hu
        have := readFrame_encode hf []
        rw [List.append_nil, hu, hr] at this
        cases this
      · exact truncated_of_isPrefix hf hu hu0
    · rw [hu, readFrame_encode hf] at hr
      cases hr

end Link

theorem next_frame (ha : Hears M received inbuf reads) (hb : Says M out [] begun) (hall : received = out)
    (hne : reads ≠ begun) : ∃ f r, readFrame M inbuf = .ok (f, r) := by
  obtain ⟨fs, hfs, -⟩ := split_begun ha hb (hall ▸ List.prefix_refl _)
  have hin : inbuf = encodeAll fs := by
    have ho := hb.stream
    rw [List.append_nil, ← hall, ha.stream, hfs, encodeAll_append] at ho
    exact List.append_cancel_left ho
  cases fs with
  | nil => rw [List.append_nil] at hfs; exact absurd hfs.symm hne
  | cons f fs =>
    have hf : f.Fits M := hb.fits f (by rw [hfs]; simp)
    exact ⟨f, encodeAll fs, by rw [hin, encodeAll_cons, readFrame_encode hf]⟩

end Hears

/-! ## `read_exact` -/

/-- `read_frame` has taken `s`; its `read_exact`, of the header or of the payload, asks for this many bytes more. -/
def wanted (M : UInt32) (s : Bytes) : Nat :=
  if s.length < HEADER_LEN then HEADER_LEN - s.length
  else match parseHeader (s.take HEADER_LEN) with
    | .error _ => 0
    | .ok (_, _, payloadLen) => if payloadLen > M then 0 else HEADER_LEN + payloadLen.toNat - s.length

/-- It asks for no more than the frame has. -/
theorem wanted_le (M : UInt32) (s : Bytes) : wanted M s = 0 ∨ s.length + wanted M s ≤ HEADER_LEN + M.toNat := by
  unfold wanted
  split
  · right
    omega
  · split
    · exact Or.inl rfl
    · rename_i payloadLen _
      split
      · exact Or.inl rfl
      · rename_i hle
        have : payloadLen.toNat ≤ M.toNat := by
          rw [gt_iff_lt, UInt32.lt_iff_toNat_lt] at hle
          omega
        omega

/-- **It asks for something as long as the frame is not there.** -/
theorem wanted_pos_iff {M : UInt32} {s : Bytes} : 0 < wanted M s ↔ readFrame M s = .error .unexpectedEof := by
  rw [readFrame_eq]
  unfold wanted
  rw [show HEADER_LEN = 9 from rfl]
  by_cases hl : s.length < 9
  · rw [if_pos hl, if_pos hl]
    simp only [iff_true]
    omega
  rw [if_neg hl, if_neg hl, parseHeader_take]
  by_cases hm : s.take 3 ≠ MAGIC
  · simp only [if_pos hm, Nat.lt_irrefl, Except.error.injEq, reduceCtorEq]
  by_cases hv : s.getD 3 0 ≠ VERSION
  · simp only [if_neg hm, if_pos hv, Nat.lt_irrefl, Except.error.injEq, reduceCtorEq]
  by_cases hd : declaredLen s > M
  · simp only [if_neg hm, if_neg hv, if_pos hd, Nat.lt_irrefl, Except.error.injEq, reduceCtorEq]
  simp only [if_neg hm, if_neg hv, if_neg hd]
  by_cases hs : s.length < 9 + (declaredLen s).toNat
  · rw [if_pos hs]
    simp only [iff_true]
    omega
  · rw [if_neg hs]
    simp only [reduceCtorEq, iff_false]
    omega

end Sao
