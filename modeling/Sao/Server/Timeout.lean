import Sao.Server.AuthSafety
import Sao.Server.Frames

/-!
# What a timeout leaves on the stream

`tokio::time::timeout` drops the future `exec` wherever it is suspended, `write_frame` included,
and the timeout branch then writes `EXEC_EXIT` to the same stream.

* `wholeFrames_iff` — when `run_one_exec` returns, the stream carries a prefix of the command's
  output frames followed by one `EXEC_EXIT`, exactly when `child.wait()` did not fail and `exec` was
  not dropped with a frame partly written, nor with `EXEC_EXIT` written and not yet flushed.
* `torn_stream` — a run in which the stream loses its framing.
-/

namespace Sao.Session

open MsgType State

variable {X : Ext} {E : Env} {s s' : State X}

/-- The task is inside `run_one_exec`, behind `cmd.spawn()`. -/
def Pc.inCommand : Pc → Bool
  | .recv | .wait | .write _ _ .forward | .write _ _ .execEnd | .write _ _ .timedOut => true
  | _ => false

/-- Where dropping `exec` leaves whole frames on the stream and no `EXEC_EXIT`. -/
def CleanCut : Pc → Prop
  | .write f rest .forward => rest = encode f ∨ rest = []
  | .write f rest .execEnd => rest = encode f
  | _ => True

def Event.cut? : Event X → Option Pc
  | .killed pc => some pc
  | _ => none

/-- Where `exec` was suspended at the timeouts of a log. -/
def cutsOf (log : List (Event X)) : List Pc := log.filterMap Event.cut?

/-! ## Between spawn and return -/

/-- What is on the stream while no timeout has fired: the frames of the chunks taken from the
channel, the last of them perhaps in part; then the exit frame. -/
inductive Forwarding (out₀ out : Bytes) (c : Child) : Pc → Prop where
  | recv (taken : List StreamChunk) (hs : c.sent = taken ++ c.queue)
      (ho : out = out₀ ++ encodeAll (streamFrames taken)) : Forwarding out₀ out c .recv
  | chunk (taken : List StreamChunk) (ch : StreamChunk) (w rest : Bytes) (hs : c.sent = taken ++ ch :: c.queue)
      (hw : encode (chunkFrame ch) = w ++ rest) (ho : out = out₀ ++ (encodeAll (streamFrames taken) ++ w)) :
      Forwarding out₀ out c (.write (chunkFrame ch) rest .forward)
  | wait (hq : c.queue = []) (hg : c.sendersGone) (ho : out = out₀ ++ encodeAll (streamFrames c.sent)) :
      Forwarding out₀ out c .wait
  | exit (code : Int32) (w rest : Bytes) (hq : c.queue = []) (hg : c.sendersGone)
      (hw : encode (exitFrame code) = w ++ rest) (ho : out = out₀ ++ (encodeAll (streamFrames c.sent) ++ w)) :
      Forwarding out₀ out c (.write (exitFrame code) rest .execEnd)

/-- The timeout has fired with `exec` suspended at `cut`, where `out₁` was on the stream. -/
structure CutAt (out₀ out₁ out : Bytes) (c₁ c : Child) (cut pc : Pc) (w rest : Bytes) : Prop where
  before : Forwarding out₀ out₁ c₁ cut
  sent : c₁.sent <+: c.sent
  gone : c₁.sendersGone → c.sendersGone ∧ c.sent = c₁.sent
  pc : pc = .write (exitFrame 124) rest .timedOut
  frame : encode (exitFrame 124) = w ++ rest
  out : out = out₁ ++ w

/-- The invariant of a command spawned in `s₀`. -/
def CommandInv (s₀ s : State X) : Prop :=
  ∃ c l, s.child = some c ∧ s.log = s₀.log ++ l ∧ (∀ ch ∈ c.sent, ch.Ok) ∧
    ((cutsOf l = [] ∧ Forwarding s₀.out s.out c s.pc) ∨
      ∃ cut out₁ c₁ w rest, cutsOf l = [cut] ∧ CutAt s₀.out out₁ s.out c₁ c cut s.pc w rest)

theorem Forwarding.child {out₀ out : Bytes} {c c' : Child} {pc : Pc} {new : List StreamChunk}
    (h : Forwarding out₀ out c pc) (hs : c'.sent = c.sent ++ new) (hq : c'.queue = c.queue ++ new)
    (hg : c.sendersGone → c'.sendersGone ∧ new = []) : Forwarding out₀ out c' pc := by
  cases h with
  | recv taken h1 ho => exact .recv taken (by rw [hs, hq, h1, List.append_assoc]) ho
  | chunk taken ch w rest h1 hw ho =>
    refine .chunk taken ch w rest ?_ hw ho
    rw [hs, hq, h1, List.append_assoc, List.cons_append]
  | wait h1 h2 ho =>
    obtain ⟨hg', rfl⟩ := hg h2
    rw [List.append_nil] at hs hq
    exact .wait (hq.trans h1) hg' (by rw [hs]; exact ho)
  | exit code w rest h1 h2 hw ho =>
    obtain ⟨hg', rfl⟩ := hg h2
    rw [List.append_nil] at hs hq
    exact .exit code w rest (hq.trans h1) hg' hw (by rw [hs]; exact ho)

theorem CutAt.child {out₀ out₁ out w rest : Bytes} {c₁ c c' : Child} {cut pc : Pc} {new : List StreamChunk}
    (h : CutAt out₀ out₁ out c₁ c cut pc w rest) (hs : c'.sent = c.sent ++ new)
    (hg : c.sendersGone → c'.sendersGone ∧ new = []) : CutAt out₀ out₁ out c₁ c' cut pc w rest := by
  refine ⟨h.before, h.sent.trans (by rw [hs]; exact List.prefix_append _ _), ?_, h.pc, h.frame, h.out⟩
  intro h1
  obtain ⟨h2, h3⟩ := h.gone h1
  obtain ⟨h4, rfl⟩ := hg h2
  exact ⟨h4, by rw [hs, List.append_nil, h3]⟩

theorem commandInv_spawned (s : State X) (argv : List Str) : CommandInv (spawned s argv) (spawned s argv) := by
  refine ⟨Child.spawn argv, [], rfl, by simp, by simp [Child.spawn], Or.inl ⟨rfl, ?_⟩⟩
  exact .recv [] rfl (by simp)

/-! ## Steps inside a command -/

/-- Outside a command only a spawn leads into one. -/
theorem inCommand_beginWrite {f : Frame} {k : Cont} (hk : k ≠ .forward ∧ k ≠ .execEnd ∧ k ≠ .timedOut)
    (s : State X) : (s.beginWrite f k).pc.inCommand = false := by
  rcases beginWrite_cases s f k with ⟨-, he⟩ | ⟨e, he⟩
  · rw [he]
    cases k <;> first | rfl | simp at hk
  · rw [he]
    rfl

theorem outside_step {a : Action} (h : s.pc.inCommand = false) (ha : a ≠ .spawnOk) (hs : step E s a = some s') :
    s'.pc.inCommand = false := by
  cases step_cases hs with
  | clientSend b he => exact h
  | clientClose => exact h
  | child a c c' hc hs => exact h
  | leftover i a c c' hc hs => exact h
  | start hpc =>
    unfold Session.start
    split
    · rfl
    · exact inCommand_beginWrite (by simp) _
  | readAuth f r hpc hr =>
    rcases handleAuth_cases E ({ s with inbuf := r }.emit (.read f)) f with ⟨entry, ar, -, he⟩ | ⟨g, he⟩ | ⟨r', he⟩
    · rw [he]; exact inCommand_beginWrite (by simp) _
    · rw [he]; exact inCommand_beginWrite (by simp) _
    · rw [he]; rfl
  | readServe f r hpc hr =>
    rcases handleFrame_cases E ({ s with inbuf := r }.emit (.read f)) f with
      ⟨shell, -, -, he⟩ | ⟨g, k, hk, he⟩ | ⟨r', he⟩
    · rw [he]; rfl
    · rw [he]
      rcases hk with rfl | rfl <;> exact inCommand_beginWrite (by simp) _
    · rw [he]; rfl
  | readFail r e hpc hr he => rfl
  | put n f rest k hpc h0 hn =>
    rw [hpc] at h
    cases k <;> first | rfl | cases h
  | flushed f k hpc =>
    rw [hpc] at h
    cases k <;> first | rfl | cases h
  | ioError e hpc => rfl
  | spawnOk argv hpc => exact absurd rfl ha
  | spawnErr e argv hpc => rfl
  | recv c chunk q hpc hc hq => rw [hpc] at h; cases h
  | recvNone c hpc hc hq hg => rw [hpc] at h; cases h
  | waitOk c code hpc hc hs => rw [hpc] at h; cases h
  | waitErr e hpc => rfl
  | timeout hpc =>
    have : s.pc.inCommand = true := by
      cases hp : s.pc with
      | write f rest k => rw [hp] at hpc; cases k <;> first | rfl | cases hpc
      | recv => rfl
      | wait => rfl
      | _ => rw [hp] at hpc; cases hpc
    rw [this] at h
    cases h

theorem commandInv_put {s₀ : State X} (h : CommandInv s₀ s) {n : Nat} {f : Frame} {rest : Bytes} {k : Cont}
    (hpc : s.pc = .write f rest k) :
    CommandInv s₀ { s with out := s.out ++ rest.take n, pc := .write f (rest.drop n) k } := by
  obtain ⟨c, l, hc, hl, hok, ⟨hcut, hf⟩ | ⟨cut, out₁, c₁, w, rest', hcut, hat⟩⟩ := h
  · refine ⟨c, l, hc, hl, hok, Or.inl ⟨hcut, ?_⟩⟩
    rw [hpc] at hf
    cases hf with
    | chunk taken ch w _ hs hw ho =>
      refine .chunk taken ch (w ++ rest.take n) _ hs ?_ ?_
      · rw [List.append_assoc, List.take_append_drop, hw]
      · simp only [ho, List.append_assoc]
    | exit code w _ hq hg hw ho =>
      refine .exit code (w ++ rest.take n) _ hq hg ?_ ?_
      · rw [List.append_assoc, List.take_append_drop, hw]
      · simp only [ho, List.append_assoc]
  · refine ⟨c, l, hc, hl, hok, Or.inr ⟨cut, out₁, c₁, w ++ rest.take n, rest.drop n, hcut, ?_⟩⟩
    have he := hat.pc
    rw [hpc] at he
    cases he
    refine ⟨hat.before, hat.sent, hat.gone, rfl, ?_, ?_⟩
    · rw [List.append_assoc, List.take_append_drop, hat.frame]
    · simp only [hat.out, List.append_assoc]

/-- The channel is read: the chunk's frame is begun. -/
theorem commandInv_recv {s₀ : State X} (h : CommandInv s₀ s) {c : Child} {ch : StreamChunk} {q : List StreamChunk}
    (hpc : s.pc = .recv) (hc : s.child = some c) (hq : c.queue = ch :: q) :
    CommandInv s₀ ({ s with child := some { c with queue := q } }.beginWrite (chunkFrame ch) .forward) := by
  obtain ⟨c', l, hc', hl, hok, ⟨hcut, hf⟩ | ⟨cut, out₁, c₁, w, rest, hcut, hat⟩⟩ := h
  · rw [hc, Option.some.injEq] at hc'
    subst hc'
    rw [hpc] at hf
    cases hf with
    | recv taken hs ho =>
      rw [hq] at hs
      have hch : ch.Ok := hok ch (by rw [hs]; simp)
      rw [beginWrite_fits (chunkFrame_fits hch)]
      exact ⟨_, l, rfl, hl, hok, Or.inl ⟨hcut, .chunk taken ch [] _ hs rfl (by rw [List.append_nil]; exact ho)⟩⟩
  · have he := hat.pc
    rw [hpc] at he
    cases he

/-- **One step inside a command** keeps the invariant, or leaves the command. -/
theorem commandInv_step {s₀ : State X} {a : Action} (h : CommandInv s₀ s) (hin : s.pc.inCommand = true)
    (hstep : step E s a = some s') : s'.pc.inCommand = false ∨ CommandInv s₀ s' := by
  cases step_cases hstep with
  | clientSend b he => exact Or.inr h
  | clientClose => exact Or.inr h
  | child a c c' hc hs =>
    obtain ⟨new, hsent, hqueue, hnew, hgone⟩ := Child.step_sends hs
    obtain ⟨c₀, l, hc₀, hl, hok, hcase⟩ := h
    rw [hc, Option.some.injEq] at hc₀
    subst hc₀
    refine Or.inr ⟨c', l, rfl, hl, ?_, ?_⟩
    · intro ch hch
      rw [hsent] at hch
      rcases List.mem_append.1 hch with hch | hch
      · exact hok ch hch
      · exact hnew ch hch
    · rcases hcase with ⟨hcut, hf⟩ | ⟨cut, out₁, c₁, w, rest, hcut, hat⟩
      · exact Or.inl ⟨hcut, hf.child hsent hqueue hgone⟩
      · exact Or.inr ⟨cut, out₁, c₁, w, rest, hcut, hat.child hsent hgone⟩
  | leftover i a c c' hc hs => exact Or.inr h
  | start hpc => rw [hpc] at hin; cases hin
  | readAuth f r hpc hr => rw [hpc] at hin; cases hin
  | readServe f r hpc hr => rw [hpc] at hin; cases hin
  | readFail r e hpc hr he => exact Or.inl rfl
  | put n f rest k hpc h0 hn => exact Or.inr (commandInv_put h hpc)
  | flushed f k hpc =>
    obtain ⟨c, l, hc, hl, hok, ⟨hcut, hf⟩ | ⟨cut, out₁, c₁, w, rest, hcut, hat⟩⟩ := h
    · rw [hpc] at hf
      cases hf with
      | chunk taken ch w _ hs hw ho =>
        rw [List.append_nil] at hw
        refine Or.inr ⟨c, l ++ [.wrote (chunkFrame ch)], hc, ?_, hok, Or.inl ⟨?_, .recv (taken ++ [ch]) ?_ ?_⟩⟩
        · simp [afterWrite, hl]
        · unfold cutsOf at hcut ⊢
          rw [List.filterMap_append, hcut]
          rfl
        · rw [hs, List.append_assoc]
          rfl
        · simp only [afterWrite, emit_out, ho, streamFrames_append, encodeAll_append]
          simp [hw]
      | exit code w _ hq hg hw ho => exact Or.inl rfl
    · have he := hat.pc
      rw [hpc] at he
      cases he
      exact Or.inl rfl
  | ioError e hpc => exact Or.inl rfl
  | spawnOk argv hpc => rw [hpc] at hin; cases hin
  | spawnErr e argv hpc => exact Or.inl rfl
  | recv c chunk q hpc hc hq => exact Or.inr (commandInv_recv h hpc hc hq)
  | recvNone c hpc hc hq hg =>
    obtain ⟨c₀, l, hc₀, hl, hok, ⟨hcut, hf⟩ | ⟨cut, out₁, c₁, w, rest, hcut, hat⟩⟩ := h
    · rw [hc, Option.some.injEq] at hc₀
      subst hc₀
      rw [hpc] at hf
      cases hf with
      | recv taken hs ho =>
        rw [hq, List.append_nil] at hs
        exact Or.inr ⟨c, l, hc, hl, hok, Or.inl ⟨hcut, .wait hq hg (by rw [hs]; exact ho)⟩⟩
    · have he := hat.pc
      rw [hpc] at he
      cases he
  | waitOk c code hpc hc hs =>
    obtain ⟨c₀, l, hc₀, hl, hok, ⟨hcut, hf⟩ | ⟨cut, out₁, c₁, w, rest, hcut, hat⟩⟩ := h
    · rw [hc, Option.some.injEq] at hc₀
      subst hc₀
      rw [hpc] at hf
      rw [beginWrite_fits (exitFrame_fits _)]
      cases hf with
      | wait hq hg ho =>
        refine Or.inr ⟨c, l ++ [.reaped], hc, by simp [hl], hok, Or.inl ⟨?_, ?_⟩⟩
        · unfold cutsOf at hcut ⊢
          rw [List.filterMap_append, hcut]
          rfl
        · exact .exit _ [] _ hq hg rfl (by rw [List.append_nil]; exact ho)
    · have he := hat.pc
      rw [hpc] at he
      cases he
  | waitErr e hpc => exact Or.inl rfl
  | timeout hpc =>
    obtain ⟨c, l, hc, hl, hok, ⟨hcut, hf⟩ | ⟨cut, out₁, c₁, w, rest, hcut, hat⟩⟩ := h
    · unfold timeout
      rw [beginWrite_fits (exitFrame_fits _)]
      refine Or.inr ⟨c, l ++ [.killed s.pc], hc, by simp [hl], hok,
        Or.inr ⟨s.pc, s.out, c, [], encode (exitFrame 124), ?_, ?_⟩⟩
      · unfold cutsOf at hcut ⊢
        rw [List.filterMap_append, hcut]
        rfl
      · exact ⟨hf, List.prefix_refl _, fun hg => ⟨hg, rfl⟩, rfl, rfl, (List.append_nil _).symm⟩
    · rw [hat.pc] at hpc
      cases hpc

theorem commandInv_run {s₀ : State X} {as : List Action} (hinv : CommandInv s₀ s) (has : .spawnOk ∉ as)
    (h : run E s as = some s') : s'.pc.inCommand = false ∨ CommandInv s₀ s' := by
  refine Lts.run_inv_of (· ≠ .spawnOk) (fun s => s.pc.inCommand = false ∨ CommandInv s₀ s) ?_ ?_ (Or.inr hinv) h
  · intro s a s' ha hi hs
    cases hin : s.pc.inCommand with
    | false => exact Or.inl (outside_step hin ha hs)
    | true =>
      rcases hi with hi | hi
      · rw [hi] at hin
        cases hin
      · exact commandInv_step hi hin hs
  · intro a ha he
    exact has (he ▸ ha)

/-! ## The return -/

/-- A run of one command: from the spawn of `argv` in `s` through `m`, from which the action `a`
leaves `run_one_exec` for `t`, without an error of the stream. -/
structure Returns (E : Env) (s : State X) (argv : List Str) (as : List Action) (m : State X) (a : Action)
    (t : State X) : Prop where
  run : run E (spawned s argv) as = some m
  inside : m.pc.inCommand = true
  last : step E m a = some t
  outside : t.pc.inCommand = false
  oneCommand : .spawnOk ∉ as
  transport : ∀ e, a ≠ .ioError e

/-- `run_one_exec` put on the stream a prefix of the output frames of its command and then one
`EXEC_EXIT`, which a reader decodes as these frames and stands behind. -/
def WholeFrames (s₀ t : State X) : Prop :=
  ∃ (c : Child) (k : Nat) (code : Int32), t.child = some c ∧
    t.out = s₀.out ++ encodeAll (streamFrames (c.sent.take k) ++ [exitFrame code]) ∧
    ∀ u, readFrames DEFAULT_MAX_PAYLOAD_LEN (streamFrames (c.sent.take k) ++ [exitFrame code]).length
      (encodeAll (streamFrames (c.sent.take k) ++ [exitFrame code]) ++ u) =
        .ok (streamFrames (c.sent.take k) ++ [exitFrame code], u)

/-- The timeouts that fired between `s₀` and `t`. -/
def cutsSince (s₀ t : State X) : List Pc := cutsOf (t.log.drop s₀.log.length)

theorem cutsSince_append {s₀ : State X} {t : State X} {l : List (Event X)} (h : t.log = s₀.log ++ l) :
    cutsSince s₀ t = cutsOf l := by
  unfold cutsSince
  rw [h, List.drop_left]

/-- The bytes decide: the frames of accepted chunks are within the maximum. -/
theorem wholeFrames_iff_bytes {s₀ t : State X} {c : Child} (hc : t.child = some c) (hok : ∀ ch ∈ c.sent, ch.Ok) :
    WholeFrames s₀ t ↔ ∃ k code, t.out = s₀.out ++ (encodeAll (streamFrames (c.sent.take k)) ++ encode (exitFrame code)) := by
  have henc : ∀ k code, encodeAll (streamFrames (c.sent.take k) ++ [exitFrame code]) =
      encodeAll (streamFrames (c.sent.take k)) ++ encode (exitFrame code) := by
    intro k code
    simp
  constructor
  · rintro ⟨c', k, code, hc', ho, -⟩
    rw [hc, Option.some.injEq] at hc'
    subst hc'
    exact ⟨k, code, by rw [← henc]; exact ho⟩
  · rintro ⟨k, code, ho⟩
    refine ⟨c, k, code, hc, by rw [henc]; exact ho, fun u => readFrames_encodeAll ?_ u⟩
    intro f hf
    rcases List.mem_append.1 hf with hf | hf
    · exact streamFrames_fits (fun ch hch => hok ch (List.mem_of_mem_take hch)) f hf
    · rw [List.mem_singleton] at hf
      exact hf ▸ exitFrame_fits code

/-- The stream at the return of a command that was cut. -/
theorem cut_iff {out₀ out₁ w rest : Bytes} {out : Bytes} {c₁ c : Child} {cut pc : Pc}
    (hat : CutAt out₀ out₁ out c₁ c cut pc w rest) (hok : ∀ ch ∈ c.sent, ch.Ok) :
    (∃ k code, out₁ ++ encode (exitFrame 124) =
      out₀ ++ (encodeAll (streamFrames (c.sent.take k)) ++ encode (exitFrame code))) ↔ CleanCut cut := by
  -- whole frames of the first `taken` chunks
  have hclean : ∀ taken, taken <+: c.sent → out₁ = out₀ ++ encodeAll (streamFrames taken) →
      ∃ k code, out₁ ++ encode (exitFrame 124) =
        out₀ ++ (encodeAll (streamFrames (c.sent.take k)) ++ encode (exitFrame code)) := by
    intro taken ht ho
    refine ⟨taken.length, 124, ?_⟩
    rw [← List.prefix_iff_eq_take.1 ht, ho, List.append_assoc]
  obtain ⟨more, hmore⟩ := hat.sent
  cases hat.before with
  | recv taken hs ho =>
    exact ⟨fun _ => trivial, fun _ => hclean taken ((hs ▸ List.prefix_append _ _ : taken <+: c₁.sent).trans hat.sent) ho⟩
  | wait hq hg ho => exact ⟨fun _ => trivial, fun _ => hclean c₁.sent hat.sent ho⟩
  | chunk taken ch v r hs hw ho =>
    have hsent : c.sent = taken ++ ch :: (c₁.queue ++ more) := by rw [← hmore, hs]; simp
    constructor
    · rintro ⟨k, code, he⟩
      by_cases hv : v = []
      · exact Or.inl (by rw [hw, hv, List.nil_append])
      · by_cases hr : r = []
        · exact Or.inr hr
        · rw [ho, List.append_assoc, List.append_cancel_left_eq, List.append_assoc] at he
          exact absurd he (torn_chunk hok hsent hw hv hr)
    · intro hcl
      rcases hcl with hr | hr
      · have hv : v = [] := by
          rw [hr] at hw
          exact List.self_eq_append_left.1 hw
        refine hclean taken (by rw [hsent]; exact List.prefix_append _ _) ?_
        rw [ho, hv, List.append_nil]
      · refine hclean (taken ++ [ch]) (by rw [hsent]; exact ⟨c₁.queue ++ more, by simp⟩) ?_
        rw [hr, List.append_nil] at hw
        rw [ho, ← hw]
        simp
  | exit code v r hq hg hw ho =>
    obtain ⟨-, hsent⟩ := hat.gone hg
    constructor
    · rintro ⟨k, code', he⟩
      by_cases hv : v = []
      · show r = encode (exitFrame code)
        rw [hw, hv, List.nil_append]
      · rw [ho, ← hsent, List.append_assoc, List.append_cancel_left_eq, List.append_assoc] at he
        exact absurd he (torn_end hok hv)
    · intro hcl
      have hv : v = [] := by
        have hr : r = encode (exitFrame code) := hcl
        rw [hr] at hw
        exact List.self_eq_append_left.1 hw
      exact hclean c₁.sent hat.sent (by rw [ho, hv, List.append_nil])

/-- Without an error of the stream a command is left by the flush of its last frame, or because
`child.wait()` failed. -/
theorem leaving_cases {s₀ : State X} {a : Action} (h : CommandInv s₀ s) (hin : s.pc.inCommand = true)
    (hstep : step E s a = some s') (hout : s'.pc.inCommand = false) :
    (∃ f k, a = .flushed ∧ s.pc = .write f [] k ∧ s' = afterWrite s f k) ∨
    (∃ e, a = .waitErr e ∧ s.pc = .wait ∧ s' = s.finish (.error e)) ∨ ∃ e, a = .ioError e := by
  cases step_cases hstep with
  | flushed f k hpc => exact Or.inl ⟨f, k, rfl, hpc, rfl⟩
  | waitErr e hpc => exact Or.inr (Or.inl ⟨e, rfl, hpc, rfl⟩)
  | ioError e hpc => exact Or.inr (Or.inr ⟨e, rfl⟩)
  | clientSend b he => rw [hin] at hout; cases hout
  | clientClose => rw [hin] at hout; cases hout
  | child a c c' hc hs => rw [hin] at hout; cases hout
  | leftover i a c c' hc hs => rw [hin] at hout; cases hout
  | start hpc => rw [hpc] at hin; cases hin
  | readAuth f r hpc hr => rw [hpc] at hin; cases hin
  | readServe f r hpc hr => rw [hpc] at hin; cases hin
  | readFail r e hpc hr he => rcases hpc with hpc | hpc <;> rw [hpc] at hin <;> cases hin
  | put n f rest k hpc h0 hn =>
    rw [hpc] at hin
    have hk : (Pc.write f (rest.drop n) k).inCommand = (Pc.write f rest k).inCommand := by cases k <;> rfl
    rw [← hk] at hin
    exact absurd hout (by simp [hin])
  | spawnOk argv hpc => rw [hpc] at hin; cases hin
  | spawnErr e argv hpc => rw [hpc] at hin; cases hin
  | recv c ch q hpc hc hq =>
    obtain ⟨c₀, l, hc₀, -, hok, ⟨-, hf⟩ | ⟨cut, out₁, c₁, w, rest, -, hat⟩⟩ := h
    · rw [hc, Option.some.injEq] at hc₀
      subst hc₀
      rw [hpc] at hf
      cases hf with
      | recv taken hs ho =>
        have hch : ch.Ok := hok ch (by rw [hs, hq]; simp)
        rw [beginWrite_fits (chunkFrame_fits hch)] at hout
        cases hout
    · have he := hat.pc
      rw [hpc] at he
      cases he
  | recvNone c hpc hc hq hg => cases hout
  | waitOk c code hpc hc hs =>
    rw [beginWrite_fits (exitFrame_fits _)] at hout
    cases hout
  | timeout hpc =>
    unfold timeout at hout
    rw [beginWrite_fits (exitFrame_fits _)] at hout
    cases hout

/-- The record of a command at the flush of its last frame. -/
theorem afterWrite_return {s₀ : State X} {c : Child} {l : List (Event X)} {f : Frame} {k : Cont}
    (hk : k = .execEnd ∨ k = .timedOut) (hc : s.child = some c) (hl : s.log = s₀.log ++ l) :
    (afterWrite s f k).child = some { c with rx := false } ∧ (afterWrite s f k).out = s.out ∧
      cutsSince s₀ (afterWrite s f k) = cutsOf l := by
  have hlog : (afterWrite s f k).log = s₀.log ++ (l ++ [.wrote f]) := by
    rcases hk with rfl | rfl <;> simp [afterWrite, State.dropRx, hl]
  refine ⟨?_, ?_, ?_⟩
  · rcases hk with rfl | rfl <;> simp [afterWrite, State.dropRx, hc]
  · rcases hk with rfl | rfl <;> rfl
  · rw [cutsSince_append hlog]
    unfold cutsOf
    rw [List.filterMap_append]
    exact List.append_nil _

/-- **Exactly when the stream keeps its framing.** -/
theorem wholeFrames_iff (X : Ext) (E : Env) (s : State X) (argv : List Str) (as : List Action) (m : State X)
    (a : Action) (t : State X) (h : Returns E s argv as m a t) :
    WholeFrames (spawned s argv) t ↔
      (∀ cut ∈ cutsSince (spawned s argv) t, CleanCut cut) ∧ ∀ e, a ≠ .waitErr e := by
  have hinv : CommandInv (spawned s argv) m := by
    rcases commandInv_run (commandInv_spawned s argv) h.oneCommand h.run with hout | hinv
    · rw [h.inside] at hout
      cases hout
    · exact hinv
  have hleave := leaving_cases hinv h.inside h.last h.outside
  obtain ⟨c, l, hc, hl, hok, hcase⟩ := hinv
  rcases hleave with ⟨f, k, rfl, hpc, rfl⟩ | ⟨e, rfl, hpc, rfl⟩ | ⟨e, rfl⟩
  · have herr : ∀ e, Action.flushed ≠ .waitErr e := by simp
    rcases hcase with ⟨hcut, hf⟩ | ⟨cut, out₁, c₁, w, rest, hcut, hat⟩
    · -- no timeout: the flush of `EXEC_EXIT`
      have hout := h.outside
      rw [hpc] at hf
      cases hf with
      | chunk taken ch w _ hs hw ho => cases hout
      | exit code w _ hq hg hw ho =>
        obtain ⟨hchild, hbytes, hcuts⟩ := afterWrite_return (Or.inl rfl) hc hl
        rw [wholeFrames_iff_bytes hchild hok, hcuts, hcut, hbytes]
        refine ⟨fun _ => ⟨by simp, herr⟩, fun _ => ⟨c.sent.length, code, ?_⟩⟩
        rw [List.append_nil] at hw
        rw [List.take_length, hw]
        exact ho
    · -- the flush of the timeout's frame
      have he := hat.pc
      rw [hpc] at he
      cases he
      obtain ⟨hchild, hbytes, hcuts⟩ := afterWrite_return (Or.inr rfl) hc hl
      have hframe : w = encode (exitFrame 124) := by rw [hat.frame, List.append_nil]
      rw [wholeFrames_iff_bytes hchild hok, hcuts, hcut, hbytes, hat.out, hframe, cut_iff hat hok]
      simp
  · rcases hcase with ⟨hcut, hf⟩ | ⟨cut, out₁, c₁, w, rest, hcut, hat⟩
    · rw [hpc] at hf
      cases hf with
      | wait hq hg ho =>
        have hchild : (m.finish (.error e)).child = some { c with rx := false } := by
          simp [State.finish, State.dropRx, hc]
        rw [wholeFrames_iff_bytes hchild hok]
        constructor
        · rintro ⟨k, code, he⟩
          rw [finish_out, ho, List.append_cancel_left_eq] at he
          exact absurd he (no_exit hok)
        · rintro ⟨-, herr⟩
          exact absurd rfl (herr e)
    · have he := hat.pc
      rw [hpc] at he
      cases he
  · exact absurd rfl (h.transport e)

/-! ## Runs -/

/-- The timeout branch with a client that reads. -/
theorem run_timeout (hpc : s.pc.inExec = true) :
    run E s [.timeout, .put 40] = some { s.emit (.killed s.pc) with
      out := s.out ++ encode (exitFrame 124), pc := .write (exitFrame 124) [] .timedOut } := by
  have h1 : step E s .timeout = some { s.emit (.killed s.pc) with
      pc := .write (exitFrame 124) (encode (exitFrame 124)) .timedOut } := by
    simp only [step, hpc, if_true, timeout, beginWrite_fits (exitFrame_fits _)]
  have hlen : 0 < 40 ∧ 40 ≤ (encode (exitFrame 124)).length := by
    rw [length_encode_exit124]
    omega
  have htake : (encode (exitFrame 124)).take 40 = encode (exitFrame 124) :=
    List.take_of_length_le (Nat.le_of_eq length_encode_exit124)
  have hdrop : (encode (exitFrame 124)).drop 40 = [] :=
    List.drop_of_length_le (Nat.le_of_eq length_encode_exit124)
  rw [run_cons_eq h1]
  unfold run
  rw [Lts.run]
  simp only [step]
  rw [if_pos hlen, htake, hdrop]
  rfl

theorem returns_of_timeout {argv : List Str} {pre : List Action} {u : State X} (hpre : .spawnOk ∉ pre)
    (hrun : run E (spawned s argv) pre = some u) (hpc : u.pc.inExec = true) :
    ∃ m t, Returns E s argv (pre ++ [.timeout, .put 40]) m .flushed t ∧ t.out = u.out ++ encode (exitFrame 124) ∧
      t.child = u.child.map (fun c => { c with rx := false }) ∧
      ∀ l, u.log = (spawned s argv).log ++ l → cutsSince (spawned s argv) t = cutsOf l ++ [u.pc] := by
  refine ⟨_, _, ⟨Lts.run_append.2 ⟨u, hrun, run_timeout hpc⟩, rfl, rfl, rfl, by simp [hpre], by simp⟩, rfl, rfl, ?_⟩
  intro l hl
  have hlog : ∀ f, (afterWrite { u.emit (.killed u.pc) with
      out := u.out ++ encode (exitFrame 124), pc := .write (exitFrame 124) [] .timedOut } f .timedOut).log =
        (spawned s argv).log ++ (l ++ [.killed u.pc, .wrote f]) := by
    intro f
    simp [afterWrite, State.dropRx, hl]
  rw [cutsSince_append (hlog _)]
  unfold cutsOf
  rw [List.filterMap_append]
  rfl

section Torn

variable {argv : List Str} {d : Bytes} {n : Nat}

/-- The record of a command whose first output has been sent as one chunk and received. -/
def chunkTaken (argv : List Str) (d : Bytes) : Child :=
  { Child.spawn argv with stdout := ⟨d, [], true, true⟩, sent := [⟨.out, d⟩] }

/-- The command writes `d`, of whose frame the client takes `n` bytes. -/
theorem run_torn (hd : 0 < d.length ∧ d.length ≤ READ_BUF_LEN) (hn : 0 < n)
    (hlen : n ≤ (encode (chunkFrame ⟨.out, d⟩)).length) :
    run E (spawned s argv) [.child (.write .out d), .child (.read .out d.length), .recv, .put n] =
      some { spawned s argv with
        child := some (chunkTaken argv d)
        out := s.out ++ (encode (chunkFrame ⟨.out, d⟩)).take n
        pc := .write (chunkFrame ⟨.out, d⟩) ((encode (chunkFrame ⟨.out, d⟩)).drop n) .forward } := by
  have hne : d ≠ [] := List.length_pos_iff.1 hd.1
  have hok : StreamChunk.Ok ⟨.out, d⟩ := hd
  have h1 : step E (spawned s argv) (.child (.write .out d)) =
      some { spawned s argv with child := some { Child.spawn argv with stdout := ⟨d, d, true, true⟩ } } := by
    simp [step, spawned, Child.step, Child.spawn, Child.pipe, Child.setPipe, Child.freshPipe, hne]
  have h2 : step E { spawned s argv with child := some { Child.spawn argv with stdout := ⟨d, d, true, true⟩ } }
      (.child (.read .out d.length)) =
      some { spawned s argv with child := some { chunkTaken argv d with queue := [⟨.out, d⟩] } } := by
    simp [step, Child.step, Child.spawn, Child.pipe, Child.setPipe, Child.send, chunkTaken, hd]
  have h3 : step E { spawned s argv with child := some { chunkTaken argv d with queue := [⟨.out, d⟩] } } .recv =
      some { spawned s argv with
        child := some (chunkTaken argv d)
        pc := .write (chunkFrame ⟨.out, d⟩) (encode (chunkFrame ⟨.out, d⟩)) .forward } := by
    simp [step, spawned, recv, chunkTaken, Child.spawn, beginWrite_fits (chunkFrame_fits hok)]
  rw [run_cons_eq h1, run_cons_eq h2, run_cons_eq h3]
  unfold run
  rw [Lts.run]
  simp only [step]
  rw [if_pos ⟨hn, hlen⟩]
  rfl

/-- The command writes `d`, and the client takes the whole frame of it. -/
theorem run_forwarded (hd : 0 < d.length ∧ d.length ≤ READ_BUF_LEN) :
    run E (spawned s argv) [.child (.write .out d), .child (.read .out d.length), .recv,
      .put (encode (chunkFrame ⟨.out, d⟩)).length, .flushed] =
      some { spawned s argv with
        child := some (chunkTaken argv d)
        out := s.out ++ encode (chunkFrame ⟨.out, d⟩)
        log := (spawned s argv).log ++ [.wrote (chunkFrame ⟨.out, d⟩)] } := by
  have hpos : 0 < (encode (chunkFrame ⟨.out, d⟩)).length := by
    rw [length_encode]
    omega
  refine Lts.run_append.2 ⟨_, run_torn hd hpos (Nat.le_refl _), ?_⟩
  rw [List.take_length, List.drop_length]
  rfl

/-- An authenticated client whose command has written `hi\n`, and is cut off while `exec` waits for more. -/
theorem wholeFrames_forwarded : ∃ (as₀ as : List Action) (s m t : State Ext.sample) (argv : List Str),
    run sampleEnv (init Ext.sample) as₀ = some s ∧ s.pc = .spawning argv ∧
    Returns sampleEnv s argv as m .flushed t ∧ WholeFrames (spawned s argv) t ∧
    t.out = s.out ++ encode (chunkFrame ⟨.out, [104, 105, 10]⟩) ++ encode (exitFrame 124) := by
  obtain ⟨s, argv, hrun, hpc, -⟩ := spawning_sample
  have hd : 0 < [104, 105, 10].length ∧ ([104, 105, 10] : Bytes).length ≤ READ_BUF_LEN := by decide
  have hforward := @run_forwarded _ sampleEnv s argv [104, 105, 10] hd
  obtain ⟨m, t, hret, hout, -, hcuts⟩ := returns_of_timeout (by simp) hforward rfl
  refine ⟨_, _, s, m, t, argv, hrun, hpc, hret, ?_, hout⟩
  refine (wholeFrames_iff Ext.sample sampleEnv _ _ _ _ _ _ hret).2 ⟨fun cut hcut => ?_, by simp⟩
  rw [hcuts _ rfl] at hcut
  have he : cut = (spawned s argv).pc := by simpa [cutsOf, Event.cut?] using hcut
  rw [he]
  trivial

/-- **A timeout in the middle of a frame**: with five of the bytes of the frame of `hi\n` written,
the client's stream is no longer a sequence of frames. -/
theorem torn_stream : ¬ ∀ (as₀ : List Action) (s : State Ext.sample) (argv : List Str) (as : List Action)
    (m : State Ext.sample) (a : Action) (t : State Ext.sample), run sampleEnv (init Ext.sample) as₀ = some s →
    s.pc = .spawning argv → Returns sampleEnv s argv as m a t → (∀ e, a ≠ .waitErr e) →
    WholeFrames (spawned s argv) t := by
  intro hall
  obtain ⟨s, argv, hrun, hpc, -⟩ := spawning_sample
  -- five bytes of the frame are on the stream when the timeout fires
  have hd : 0 < [104, 105, 10].length ∧ ([104, 105, 10] : Bytes).length ≤ READ_BUF_LEN := by decide
  have hn : 5 < (encode (chunkFrame ⟨.out, [104, 105, 10]⟩)).length := by
    have := length_encode (chunkFrame ⟨.out, [104, 105, 10]⟩)
    rw [chunkFrame_payload, length_toVec_streamJson] at this
    omega
  have hcut := @run_torn _ sampleEnv s argv _ 5 hd (by omega) (Nat.le_of_lt hn)
  obtain ⟨m, t, hret, hout, hchild, -⟩ := returns_of_timeout (by simp) hcut rfl
  have hw := hall _ s argv _ m _ t hrun hpc hret (by simp)
  rw [wholeFrames_iff_bytes hchild (by simp [chunkTaken, StreamChunk.Ok, READ_BUF_LEN]), hout] at hw
  obtain ⟨k, code, he⟩ := hw
  have hok : ∀ ch ∈ [StreamChunk.mk .out [104, 105, 10]], ch.Ok := by simp [StreamChunk.Ok, READ_BUF_LEN]
  have heq : [StreamChunk.mk .out [104, 105, 10]] = [] ++ StreamChunk.mk .out [104, 105, 10] :: [] := rfl
  have htorn := @torn_chunk _ _ _ _ _ _ k code hok heq
    (List.take_append_drop 5 (encode (chunkFrame ⟨.out, [104, 105, 10]⟩))).symm
    (by rw [encode_cons]; simp)
    (by intro h; have := congrArg List.length h; simp only [List.length_drop, List.length_nil] at this; omega)
  rw [List.append_assoc] at he
  exact htorn ((List.append_cancel_left_eq _ _ _).mp he)

end Torn

end Sao.Session
