import Sao.Client.Transcript
import Sao.Core.Reference

/-!
# The exit status of the client

`code as i32` keeps the low 32 bits of the 64-bit `exit_code`.

* `run_reports` — a stream that ends in an exit frame makes the client exit with that frame's code, cut
  to 32 bits.
* `honest_iff` — the client reports success only where the server did exactly for the streams whose
  exit code is not a multiple of 2^32 other than 0.
* `wrapped_success` — a stream with exit code 2^32.
-/

namespace Sao.ClientSession

open MsgType State Reference

variable {X : Ext} {E : Env}

/-- The stream `b` begins as that of a command that ran to its end, with this `exit_code`. -/
def Reports (X : Ext) (b : Bytes) (code : Int64) : Prop :=
  ∃ ch nonce sessionId res outs last rest, Challenges X ch nonce sessionId ∧ Grants X res ∧
    (∀ f ∈ outs, Streams X f) ∧ last.msgType = EXEC_EXIT ∧ X.exitCode last.payload = .ok (some code) ∧
    (∀ f ∈ ch :: res :: (outs ++ [last]), f.Fits DEFAULT_MAX_PAYLOAD_LEN) ∧
    b = encodeAll (ch :: res :: (outs ++ [last])) ++ rest

/-- The key can be used and the request is no longer than a frame may be. -/
def CanAsk (E : Env) : Prop :=
  (∃ sk, E.signingKey = .ok sk) ∧ (execShell E.shellLine).Fits DEFAULT_MAX_PAYLOAD_LEN

/-- A run that is not misleading: it exits with 0 only if the server reported 0; it asks only behind
`AUTH_RESULT` with `ok`; and it ends: it cannot go on for ever, and when the peer has closed it goes
on until it is done. -/
structure Honest (X : Ext) (E : Env) (s : State) : Prop where
  status : s.pc = .done (.exit 0) → Reports X s.received 0
  request : Cautious X E (readsOf s.log) s.out
  ends : s.eof = true → (∀ r, s.pc ≠ .done r) → ∃ a : Action, a.Own ∧ ∃ s', step X E s a = some s'
  stops : ∃ n, ∀ as s', (∀ a ∈ as, a.Own) → run X E s as = some s' → as.length ≤ n

/-! ## Every run -/

/-- Only an exit frame leads to 0. -/
theorem exitOf_zero {f : Frame} (h : exitOf X f = some 0) :
    f.msgType = EXEC_EXIT ∧ ∃ code, X.exitCode f.payload = .ok (some code) ∧ code.toInt32 = 0 := by
  unfold exitOf at h
  split at h
  · cases h
  split at h
  · rename_i hmt
    refine ⟨hmt, ?_⟩
    cases hx : X.exitCode f.payload with
    | error e => rw [hx] at h; cases h
    | ok code =>
      rw [hx] at h
      cases code with
      | none => cases h
      | some code => exact ⟨code, rfl, Option.some.inj h⟩
  split at h <;> cases h

theorem run_zero {as : List Action} {s : State} (h : run X E init as = some s) (hpc : s.pc = .done (.exit 0)) :
    CanAsk E ∧ ∃ code : Int64, code.toInt32 = 0 ∧ Reports X s.received code := by
  have ht := told_run h
  obtain ⟨ch, resp, res, outs, last, ⟨sk, nonce, sid, hk, hch, -⟩, hg, hq, hs, hlast, hreads, -, -, -⟩ :=
    Talk.of_exited (hpc ▸ ht.talk)
  obtain ⟨hmt, code, hcode, h0⟩ := exitOf_zero hlast
  exact ⟨⟨⟨sk, hk⟩, hq⟩, code, h0, ch, nonce, sid, res, outs, last, s.inbuf, hch, hg, hs, hmt, hcode, hreads ▸ ht.fits,
    hreads ▸ ht.stream⟩

/-! ## One stream, one code -/

theorem streams_ne_exit {f g : Frame} (hf : Streams X f) (hg : g.msgType = EXEC_EXIT) : f ≠ g := by
  rintro rfl
  rcases hf.1 with h | h <;> rw [h] at hg <;> exact absurd hg (by decide)

/-- Behind stream frames the exit frame is determined. -/
theorem exit_unique {outs outs' : List Frame} {last last' : Frame} {r r' : Bytes}
    (hs : ∀ f ∈ outs, Streams X f) (hs' : ∀ f ∈ outs', Streams X f) (hl : last.msgType = EXEC_EXIT)
    (hl' : last'.msgType = EXEC_EXIT) (hf : ∀ f ∈ outs ++ [last], f.Fits DEFAULT_MAX_PAYLOAD_LEN)
    (hf' : ∀ f ∈ outs' ++ [last'], f.Fits DEFAULT_MAX_PAYLOAD_LEN)
    (h : encodeAll (outs ++ [last]) ++ r = encodeAll (outs' ++ [last']) ++ r') : last = last' := by
  have hhead : ∀ {f g : Frame} {b b' : Bytes}, f.Fits DEFAULT_MAX_PAYLOAD_LEN → g.Fits DEFAULT_MAX_PAYLOAD_LEN →
      encode f ++ b ++ r = encode g ++ b' ++ r' → f = g ∧ b ++ r = b' ++ r' := fun hf hg he =>
    encode_append_inj hf hg (by rwa [List.append_assoc, List.append_assoc] at he)
  induction outs generalizing outs' with
  | nil =>
    cases outs' with
    | nil => exact (hhead (hf _ (by simp)) (hf' _ (by simp)) h).1
    | cons f outs' =>
      exact absurd (hhead (hf _ (by simp)) (hf' _ (by simp)) h).1.symm (streams_ne_exit (hs' f (by simp)) hl)
  | cons f outs ih =>
    cases outs' with
    | nil => exact absurd (hhead (hf _ (by simp)) (hf' _ (by simp)) h).1 (streams_ne_exit (hs f (by simp)) hl')
    | cons f' outs' =>
      exact ih (fun g hg => hs g (by simp [hg])) (fun g hg => hs' g (by simp [hg]))
        (fun g hg => hf g (List.mem_cons_of_mem _ hg)) (fun g hg => hf' g (List.mem_cons_of_mem _ hg))
        (hhead (hf _ (by simp)) (hf' _ (by simp)) h).2

theorem reports_unique {b : Bytes} {code code' : Int64} (h : Reports X b code) (h' : Reports X b code') :
    code = code' := by
  obtain ⟨ch, -, -, res, outs, last, r, -, -, hs, hl, hc, hf, rfl⟩ := h
  obtain ⟨ch', -, -, res', outs', last', r', -, -, hs', hl', hc', hf', heq⟩ := h'
  simp only [encodeAll_cons, List.append_assoc] at heq
  have h1 := (encode_append_inj (hf _ (by simp)) (hf' _ (by simp)) heq).2
  have h2 := (encode_append_inj (hf res (by simp)) (hf' res' (by simp)) h1).2
  have hlast := exit_unique hs hs' hl hl' (fun f hm => hf f (List.mem_cons_of_mem _ (List.mem_cons_of_mem _ hm)))
    (fun f hm => hf' f (List.mem_cons_of_mem _ (List.mem_cons_of_mem _ hm))) h2
  rw [hlast, hc'] at hc
  cases hc
  rfl

/-! ## The run of such a stream -/

/-- Stream frames are read one after the other. -/
theorem run_outs {s : State} {outs : List Frame} {r : Bytes} (hpc : s.pc = .replies)
    (hin : s.inbuf = encodeAll outs ++ r) (hs : ∀ f ∈ outs, Streams X f)
    (hf : ∀ f ∈ outs, f.Fits DEFAULT_MAX_PAYLOAD_LEN) :
    ∃ t, run X E s (List.replicate outs.length .read) = some t ∧ t.pc = .replies ∧ t.inbuf = r ∧
      t.received = s.received := by
  induction outs generalizing s with
  | nil => exact ⟨s, rfl, hpc, by simpa using hin, rfl⟩
  | cons f outs ih =>
    obtain ⟨hmt, raw, hraw⟩ := hs f List.mem_cons_self
    have hread : step X E s .read = some (handleReply X
        ({ s with inbuf := encodeAll outs ++ r }.emit (.read f)) f) :=
      step_readReply hpc (hf f List.mem_cons_self) (by rw [hin, encodeAll_cons, List.append_assoc])
    have hreply : ∀ t : State, handleReply X t f = { t.writeStd f.msgType raw with pc := .replies } := by
      intro t
      simp only [handleReply, hmt, hraw, if_true]
    obtain ⟨t, hrun, htpc, htin, htrec⟩ := ih (s := { ({ s with inbuf := encodeAll outs ++ r }.emit
      (.read f)).writeStd f.msgType raw with pc := .replies }) rfl (by rw [writeStd_streams _ hmt]; rfl)
      (fun g hg => hs g (List.mem_cons_of_mem _ hg)) (fun g hg => hf g (List.mem_cons_of_mem _ hg))
    refine ⟨t, ?_, htpc, htin, by rw [htrec, writeStd_streams _ hmt]; rfl⟩
    rw [List.length_cons, List.replicate_succ, run_cons_eq hread, hreply]
    exact hrun

/-- A client that is let in asks. -/
theorem run_granted {sk : ByteArr 32} {ch res : Frame} {nonce : Bytes} {sid : Str} (hk : E.signingKey = .ok sk)
    (hch : Challenges X ch nonce sid) (hg : Grants X res) (hshell : (execShell E.shellLine).Fits DEFAULT_MAX_PAYLOAD_LEN)
    (hfch : ch.Fits DEFAULT_MAX_PAYLOAD_LEN) (hfres : res.Fits DEFAULT_MAX_PAYLOAD_LEN) (r : Bytes) :
    ∃ as u, run X E init as = some u ∧ u.pc = .replies ∧ u.received = encode ch ++ (encode res ++ r) ∧ u.inbuf = r := by
  obtain ⟨hmt, ar, har, hok⟩ := hg
  obtain ⟨u, hu, hpc, hrec, hin, -, -⟩ := run_challenged hk hch hfch (encode res ++ r)
  have hread := step_readResult (X := X) (E := E) hpc hfres hin
  rw [handleResult_eq hmt har hok, beginWrite_fits hshell] at hread
  have hrest : run X E u [.read, .put (encode (execShell E.shellLine)).length, .flushed] = some _ :=
    (run_cons_eq hread _).trans ((run_write rfl []).trans rfl)
  have hall : run X E init ([_, _, _, _, _] ++ [_, _, _]) = some _ := Lts.run_append.2 ⟨u, hu, hrest⟩
  exact ⟨_, _, hall, rfl, hrec, rfl⟩

/-- **A stream with an exit code makes the client exit with it**, as far as 32 bits hold it. -/
theorem run_reports {b : Bytes} {code : Int64} (hE : CanAsk E) (h : Reports X b code) :
    ∃ as s, run X E init as = some s ∧ s.received = b ∧ s.pc = .done (.exit code.toInt32) := by
  obtain ⟨⟨sk, hk⟩, hshell⟩ := hE
  obtain ⟨ch, nonce, sid, res, outs, last, rest, hch, hg, hs, hmt, hcode, hf, rfl⟩ := h
  obtain ⟨as, u, hu, hpc, hrec, hin⟩ := run_granted hk hch hg hshell (hf ch (by simp)) (hf res (by simp))
    (encodeAll (outs ++ [last]) ++ rest)
  have hin' : u.inbuf = encodeAll outs ++ (encode last ++ rest) := by
    rw [hin, encodeAll_append, List.append_assoc]
    simp
  obtain ⟨t, ht, htpc, htin, htrec⟩ := run_outs (E := E) hpc hin' hs (fun f hm => hf f (by simp [hm]))
  have hread := step_readReply (X := X) (E := E) htpc (hf last (by simp)) htin
  have hreply : ∀ v : State, handleReply X v last = v.exit code.toInt32 := by
    intro v
    have hne : ¬ (last.msgType = STREAM_STDOUT ∨ last.msgType = STREAM_STDERR) := by
      rw [hmt]
      decide
    simp only [handleReply, if_neg hne, if_pos hmt, hcode, Option.getD_some]
  rw [hreply] at hread
  have hend : run X E u (List.replicate outs.length .read ++ [.read]) = some _ := Lts.run_snoc.2 ⟨t, ht, hread⟩
  have hall : run X E init (as ++ (List.replicate outs.length .read ++ [.read])) = some _ :=
    Lts.run_append.2 ⟨u, hu, hend⟩
  refine ⟨_, _, hall, ?_, rfl⟩
  show t.received = _
  rw [htrec, hrec]
  simp only [encodeAll_cons, List.append_assoc]

/-! ## When the client is honest -/

/-- **The exit status of the client**: whatever a server sends as the stream `b`, every run on it is honest
if and only if the client never gets to read a reported code other than 0 whose low 32 bits are 0. -/
theorem honest_iff (X : Ext) (E : Env) (b : Bytes) :
    (∀ as s, run X E init as = some s → s.received = b → Honest X E s) ↔
      (CanAsk E → ∀ code, Reports X b code → code.toInt32 = 0 → code = 0) := by
  constructor
  · intro hall hE code hrep h0
    obtain ⟨as, s, hrun, hrec, hpc⟩ := run_reports hE hrep
    rw [h0] at hpc
    exact reports_unique hrep (hrec ▸ (hall as s hrun hrec).status hpc)
  · intro hcond as s hrun hrec
    refine ⟨fun hpc => ?_, (told_run hrun).talk.cautious, own_enabled, s.remaining, fun as' s' => run_own_length⟩
    obtain ⟨hE, code, h0, hrep⟩ := run_zero hrun hpc
    rw [hrec] at hrep ⊢
    exact hcond hE code hrep h0 ▸ hrep

/-- `exit_code` 4294967296, `signal` null -/
def wrappedExit : Frame :=
  jsonFrame EXEC_EXIT [("exit_code".toList, .num 4294967296), ("signal".toList, .null)]

def sampleChallenge : Frame := jsonFrame AUTH_CHALLENGE (challengeJson Sample.nonce.1 Sample.sessionId)

def sampleResult : Frame := jsonFrame AUTH_RESULT (authOkJson (some "agent".toList) "default".toList)

/-- The server lets the client in, and reports 2^32 as the exit code of its command. -/
def wrappedStream : List Frame := [sampleChallenge, sampleResult, wrappedExit]

theorem reports_wrapped : Reports Ext.sample (encodeAll wrappedStream) 4294967296 := by
  have hch : Challenges Ext.sample sampleChallenge Sample.nonce.1 Sample.sessionId :=
    ⟨rfl, ⟨Base64.encode Sample.nonce.1, Sample.sessionId⟩, lawful_sample.authChallenge _ _, lawful_sample.base64 _, rfl⟩
  have hg : Grants Ext.sample sampleResult := ⟨rfl, ⟨true, none, none⟩, lawful_sample.authOk _ _, rfl⟩
  have hcode : Ext.sample.exitCode wrappedExit.payload = .ok (some 4294967296) := by
    simp only [Ext.sample, Ext.reference, wrappedExit, jsonFrame, fromSlice_toVec]
    rfl
  have hfits : ∀ f ∈ wrappedStream, f.Fits DEFAULT_MAX_PAYLOAD_LEN := by decide +kernel
  exact ⟨sampleChallenge, Sample.nonce.1, Sample.sessionId, sampleResult, [], wrappedExit, [], hch, hg,
    fun f hf => (by cases hf), rfl, hcode, hfits, (List.append_nil _).symm⟩

/-- **A failed command that looks like a success.** -/
theorem wrapped_success : ∃ as s, run Ext.sample ⟨.ok Sample.secretKey, "id".toList⟩ init as = some s ∧
    s.received = encodeAll wrappedStream ∧ s.pc = .done (.exit 0) ∧ ¬ Reports Ext.sample s.received 0 := by
  have hE : CanAsk ⟨.ok Sample.secretKey, "id".toList⟩ := ⟨⟨_, rfl⟩, by decide +kernel⟩
  obtain ⟨as, s, hrun, hrec, hpc⟩ := run_reports hE reports_wrapped
  refine ⟨as, s, hrun, hrec, hpc, fun h0 => ?_⟩
  rw [hrec] at h0
  exact absurd (reports_unique reports_wrapped h0) (by decide)

end Sao.ClientSession
