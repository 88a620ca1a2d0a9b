import Sao.Client.Transcript
import Sao.Server.Transcript

/-!
# What a client makes of the frames of a session

* `carried_streamFrames` — the stream frames of a command carry what was read from its pipes.
* `exitOf_exitFrame`, `exitOf_denied` — the codes the client exits with.
* `handleReply_ok` — no frame of a command is an error to the client.
-/

namespace Sao.ClientSession

open MsgType Session

variable {X : Ext}

/-- The client can go on from the frame, or exits with a code. -/
def Reply (X : Ext) (f : Frame) : Prop := Streams X f ∨ ∃ code, exitOf X f = some code

theorem handleReply_ok {f : Frame} (h : Reply X f) (s : State) (o : Outcome) :
    (handleReply X s f).pc = .done o → ¬ o.Failed := by
  unfold handleReply
  rcases h with ⟨hmt, raw, hraw⟩ | ⟨code, hcode⟩
  · rw [if_pos hmt, hraw]
    nofun
  · unfold exitOf at hcode
    split at hcode
    · cases hcode
    rename_i hmt
    rw [if_neg hmt]
    split at hcode
    · rename_i hexit
      rw [if_pos hexit]
      cases hx : X.exitCode f.payload with
      | error e => rw [hx] at hcode; cases hcode
      | ok code => rintro ⟨⟩; exact id
    · rename_i hexit
      rw [if_neg hexit]
      split
      · rintro ⟨⟩; exact id
      · split <;> (rintro ⟨⟩; exact id)

/-! ## The command -/

/-- The type of the frames that carry a pipe. -/
def streamType : Fd → UInt8
  | .out => STREAM_STDOUT
  | .err => STREAM_STDERR

theorem chunkFrame_streamType (ch : StreamChunk) : (chunkFrame ch).msgType = streamType ch.fd := by
  cases hfd : ch.fd <;> simp only [chunkFrame, jsonFrame, hfd, streamType]

theorem streamType_inj {fd fd' : Fd} (h : streamType fd = streamType fd') : fd = fd' := by
  cases fd <;> cases fd' <;> first | rfl | exact absurd h (by decide)

section

variable (hX : X.Lawful)
include hX

theorem streamBytes_chunkFrame (ch : StreamChunk) : streamBytes X (chunkFrame ch) = .ok ch.data := by
  unfold streamBytes
  rw [chunkFrame_payload, hX.streamData]
  exact hX.base64 _

theorem streams_chunkFrame (ch : StreamChunk) : Streams X (chunkFrame ch) := by
  refine ⟨?_, ch.data, streamBytes_chunkFrame hX ch⟩
  rw [chunkFrame_streamType]
  cases ch.fd
  · exact Or.inl rfl
  · exact Or.inr rfl

/-- **What a pipe's frames carry is what was read from it.** -/
theorem carried_streamFrames (fd : Fd) (cs : List StreamChunk) :
    carried X (streamType fd) (streamFrames cs) = Child.dataOf fd cs := by
  induction cs using List.reverseRecOn with
  | nil => rfl
  | append_singleton cs ch ih =>
    have hsnoc : streamFrames (cs ++ [ch]) = streamFrames cs ++ [chunkFrame ch] := by simp [streamFrames]
    rw [hsnoc, carried_snoc X _ _ (streamBytes_chunkFrame hX ch), ih, Child.dataOf_append, chunkFrame_streamType]
    congr 1
    by_cases hfd : ch.fd = fd
    · subst hfd
      rw [if_pos rfl]
      exact (Child.dataOf_single _ _).symm
    · rw [if_neg fun h => hfd (streamType_inj h)]
      exact (Child.dataOf_other (Ne.symm hfd) _).symm

theorem exitOf_exitFrame (code : Int32) : exitOf X (exitFrame code) = some code := by
  unfold exitOf
  rw [exitFrame_payload, hX.exitCode]
  simp only [exitFrame_msgType]
  show some code.toInt64.toInt32 = some code
  rw [Int32.toInt32_toInt64]

end

/-- A stream frame does not end the client. -/
theorem Streams.exitOf {f : Frame} (h : Streams X f) : exitOf X f = none := by
  unfold ClientSession.exitOf
  rw [if_pos h.1]

theorem printed_exitFrame (code : Int32) : printed X (exitFrame code) = [] := if_pos rfl

theorem exitOf_denied (msg : Str) : exitOf X (jsonFrame POLICY_DENIED (policyDeniedJson msg)) = some 126 := rfl

end Sao.ClientSession
