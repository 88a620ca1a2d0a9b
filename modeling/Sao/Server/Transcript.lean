import Sao.Server.AuthSafety
import Sao.Server.Frames

/-!
# What a session has said

The frames of a session as a conversation: the challenge, the answer to the response, then one block
of frames for each request. `Talk` says how far the conversation has got, with the frames read, the
commands spawned and the frames written or begun; it does not mention bytes or suspension points.

| here | there |
| --- | --- |
| `reaction`, `authReaction` | what the `match`es of `run_session` and the head of `run_one_exec` make of a frame |
| `Answered`                 | the requests whose reply is complete, each with its command and its block |
| `Regime`                   | what may go wrong outside: timeouts at the two waits, I/O errors, failing spawns and waits |

* `told_step` — every step keeps the conversation and the bytes on the stream in line.
* `told_run` — so does every run.
-/

namespace Sao.Session

open MsgType State

variable {X : Ext} {E : Env} {s s' : State X}

/-! ## Frames written, commands spawned -/

def Event.wrote? : Event X → Option Frame
  | .wrote f => some f
  | _ => none

/-- The frames written and flushed, in order. -/
def wrotesOf (log : List (Event X)) : List Frame := log.filterMap Event.wrote?

@[simp] theorem wrotesOf_append (l m : List (Event X)) : wrotesOf (l ++ m) = wrotesOf l ++ wrotesOf m :=
  List.filterMap_append

section

variable (l : List (Event X))

@[simp] theorem wrotesOf_nil : wrotesOf ([] : List (Event X)) = [] := rfl
@[simp] theorem wrotesOf_read (f : Frame) : wrotesOf (.read f :: l) = wrotesOf l := rfl
@[simp] theorem wrotesOf_wrote (f : Frame) : wrotesOf (.wrote f :: l) = f :: wrotesOf l := rfl
@[simp] theorem wrotesOf_authed (k : AuthorizedKey X) (g : Str) : wrotesOf (.authed k g :: l) = wrotesOf l := rfl
@[simp] theorem wrotesOf_spawned (a : List Str) : wrotesOf (.spawned a :: l) = wrotesOf l := rfl
@[simp] theorem wrotesOf_reaped : wrotesOf (.reaped :: l) = wrotesOf l := rfl
@[simp] theorem wrotesOf_killed (pc : Pc) : wrotesOf (.killed pc :: l) = wrotesOf l := rfl

end

/-- The frame being written. -/
def Pc.begun : Pc → List Frame
  | .write f _ _ => [f]
  | _ => []

/-- The frames written, with the one being written. -/
def history (s : State X) : List Frame := wrotesOf s.log ++ s.pc.begun

/-- All commands spawned, in order. -/
def children (s : State X) : List Child := s.leftover ++ s.child.toList

/-! ## Reactions -/

/-- What is made of a request. -/
inductive Reaction where
  /-- `POLICY_DENIED` -/
  | deny (f : Frame)
  | run (argv : List Str)
  /-- `ERROR`, then the end. -/
  | refuse (f : Frame)
  | fail (e : Str)

/-- What is made of the response. -/
inductive AuthReaction (X : Ext) where
  | accept (entry : AuthorizedKey X) (signature : Str)
  | refuse (f : Frame)
  | fail (e : Str)

def reaction (X : Ext) (E : Env) (f : Frame) : Reaction :=
  if f.msgType = EXEC_SHELL then
    match X.execShell f.payload with
    | .error e => .fail e
    | .ok shell =>
      match checkShell X E.config.policy shell with
      | .error (.policyDenied msg) => .deny (jsonFrame POLICY_DENIED (policyDeniedJson msg))
      | _ =>
        if E.config.shellArgv.length < 2 then .fail "shell_argv must have at least [program, -lc]".toList
        else .run (E.config.shellArgv ++ [shell])
  else .refuse (jsonFrame ERROR (errorJson "UNKNOWN_MSG_TYPE".toList "only ExecShell allowed after auth".toList))

def authReaction (E : Env) (keys : List (AuthorizedKey X)) (resp : Frame) : AuthReaction X :=
  match authenticate E keys resp with
  | .expectedAuthResponse =>
    .refuse (jsonFrame ERROR (errorJson "EXPECTED_AUTH_RESPONSE".toList "expected AuthResponse".toList))
  | .malformed e => .fail e
  | .fail reason message => .refuse (jsonFrame AUTH_RESULT (authFailJson reason message))
  | .ok entry signature => .accept entry signature

theorem handleFrame_reaction (s : State X) (f : Frame) : handleFrame E s f =
    match reaction X E f with
    | .deny g => s.beginWrite g .serve
    | .run argv => { s with pc := .spawning argv }
    | .refuse g => s.beginWrite g .finish
    | .fail e => s.finish (.error e) := by
  unfold handleFrame reaction
  by_cases hmt : f.msgType = EXEC_SHELL
  · rw [if_pos hmt, if_pos hmt]
    cases X.execShell f.payload with
    | error e => rfl
    | ok shell =>
      simp only [runOneExec]
      cases hc : checkShell X E.config.policy shell with
      | error e =>
        obtain ⟨pat, -, -, rfl⟩ := checkShell_error hc
        rfl
      | ok u =>
        by_cases hlen : E.config.shellArgv.length < 2
        · simp only [if_pos hlen]
        · simp only [if_neg hlen]
  · rw [if_neg hmt, if_neg hmt]
    rfl

theorem handleAuth_reaction (s : State X) (resp : Frame) : handleAuth E s resp =
    match authReaction E s.keys resp with
    | .accept entry signature => (s.emit (.authed entry signature)).beginWrite (authOk E entry) .authOk
    | .refuse g => s.beginWrite g .finish
    | .fail e => s.finish (.error e) := by
  unfold handleAuth authReaction
  cases authenticate E s.keys resp <;> rfl

/-! ## Commands -/

/-- What may happen to a command between two looks at it. -/
inductive Evolves (c : Child) : Child → Prop where
  | refl : Evolves c c
  | step {a : Child.Action} {c' : Child} (h : c.step a = some c') : Evolves c c'
  | dropRx : Evolves c { c with rx := false }

/-- A command whose exit frame has been begun; `T` allows a timeout. -/
structure Reported (T : Prop) (c : Child) (taken : List StreamChunk) (code : Int32) : Prop where
  faithful : c.Faithful
  sent : taken <+: c.sent
  exit : (T ∧ code = 124) ∨
    (c.sendersGone ∧ taken = c.sent ∧ ∃ st : Option Int32, c.status = some st ∧ code = st.getD (-1))

/-- A command of which the chunks `taken` have been received. -/
structure Running (c : Child) (taken : List StreamChunk) : Prop where
  faithful : c.Faithful
  queue : c.sent = taken ++ c.queue
  ok : ∀ ch ∈ c.sent, ch.Ok

/-- All its chunks have been received. -/
def Drained (c : Child) : Prop := c.queue = [] ∧ c.sendersGone

theorem Evolves.argv {c c' : Child} (h : Evolves c c') : c'.argv = c.argv := by
  cases h with
  | refl => rfl
  | step h => exact (Child.step_keeps h).1
  | dropRx => rfl

theorem faithful_evolves {c c' : Child} (h : c.Faithful) (he : Evolves c c') : c'.Faithful := by
  cases he with
  | refl => exact h
  | step hs => exact Child.faithful_step h hs
  | dropRx => exact ⟨h.sent, fun hrx => by cases hrx⟩

theorem Reported.evolves {T : Prop} {c c' : Child} {taken : List StreamChunk} {code : Int32}
    (h : Reported T c taken code) (he : Evolves c c') : Reported T c' taken code := by
  refine ⟨faithful_evolves h.faithful he, ?_, ?_⟩
  · cases he with
    | refl => exact h.sent
    | step hs =>
      obtain ⟨new, hsent, -⟩ := Child.step_sends hs
      exact h.sent.trans ⟨new, hsent.symm⟩
    | dropRx => exact h.sent
  · rcases h.exit with htime | ⟨hgone, htaken, st, hst, hcode⟩
    · exact Or.inl htime
    · right
      cases he with
      | refl => exact ⟨hgone, htaken, st, hst, hcode⟩
      | step hs =>
        obtain ⟨new, hsent, -, -, hnew⟩ := Child.step_sends hs
        obtain ⟨hgone', rfl⟩ := hnew hgone
        exact ⟨hgone', by rw [hsent, List.append_nil, htaken], st, (Child.step_keeps hs).2.2 st hst, hcode⟩
      | dropRx => exact ⟨hgone, htaken, st, hst, hcode⟩

theorem running_spawn (argv : List Str) : Running (Child.spawn argv) [] :=
  ⟨Child.faithful_spawn argv, rfl, by simp [Child.spawn]⟩

theorem Running.evolves {c c' : Child} {taken : List StreamChunk} (h : Running c taken) (he : Evolves c c') :
    Running c' taken := by
  refine ⟨faithful_evolves h.faithful he, ?_, ?_⟩
  · cases he with
    | refl => exact h.queue
    | step hs =>
      obtain ⟨new, hsent, hqueue, -⟩ := Child.step_sends hs
      rw [hsent, hqueue, h.queue, List.append_assoc]
    | dropRx => exact h.queue
  · cases he with
    | refl => exact h.ok
    | step hs =>
      obtain ⟨new, hsent, -, hok, -⟩ := Child.step_sends hs
      intro ch hch
      rw [hsent] at hch
      rcases List.mem_append.1 hch with hch | hch
      · exact h.ok ch hch
      · exact hok ch hch
    | dropRx => exact h.ok

theorem Drained.evolves {c c' : Child} (h : Drained c) (he : Evolves c c') : Drained c' := by
  cases he with
  | refl => exact h
  | step hs =>
    obtain ⟨new, -, hqueue, -, hnew⟩ := Child.step_sends hs
    obtain ⟨hgone, rfl⟩ := hnew h.2
    exact ⟨by rw [hqueue, h.1]; rfl, hgone⟩
  | dropRx => exact h

theorem Running.recv {c : Child} {taken q : List StreamChunk} {ch : StreamChunk} (h : Running c taken)
    (hq : c.queue = ch :: q) : Running { c with queue := q } (taken ++ [ch]) :=
  ⟨⟨h.faithful.sent, h.faithful.buffered⟩, by rw [List.append_assoc, h.queue, hq]; rfl, h.ok⟩

theorem Running.reported {T : Prop} {c : Child} {taken : List StreamChunk} {st : Option Int32} (h : Running c taken)
    (hd : Drained c) (hst : c.status = some st) : Reported T c taken (st.getD (-1)) := by
  have htaken : taken = c.sent := by rw [h.queue, hd.1, List.append_nil]
  exact ⟨h.faithful, htaken ▸ List.prefix_refl _, Or.inr ⟨hd.2, htaken, st, hst, rfl⟩⟩

theorem Running.timedOut {T : Prop} {c : Child} {taken : List StreamChunk} (h : Running c taken) (hT : T) :
    Reported T c taken 124 :=
  ⟨h.faithful, ⟨c.queue, h.queue.symm⟩, Or.inl ⟨hT, rfl⟩⟩

/-- A relation between the elements of a list and of another one that has a last element. -/
theorem forall₂_snoc {α : Type} {R : α → α → Prop} {l m : List α} {a : α} (h : List.Forall₂ R (l ++ [a]) m) :
    ∃ l' a', m = l' ++ [a'] ∧ List.Forall₂ R l l' ∧ R a a' := by
  induction l generalizing m with
  | nil =>
    obtain ⟨b, m', hb, hm, rfl⟩ := List.forall₂_cons_left_iff.1 h
    cases hm
    exact ⟨[], b, rfl, .nil, hb⟩
  | cons c l ih =>
    obtain ⟨b, m', hb, hm, rfl⟩ := List.forall₂_cons_left_iff.1 h
    obtain ⟨l', a', rfl, hl, ha⟩ := ih hm
    exact ⟨b :: l', a', rfl, .cons hb hl, ha⟩

theorem evolves_refl (cs : List Child) : List.Forall₂ Evolves cs cs := by
  induction cs with
  | nil => exact .nil
  | cons c cs ih => exact .cons .refl ih

theorem evolves_set {cs : List Child} {i : Nat} {c c' : Child} (hc : cs[i]? = some c) (h : Evolves c c') :
    List.Forall₂ Evolves cs (cs.set i c') := by
  induction cs generalizing i with
  | nil => simp at hc
  | cons d cs ih =>
    cases i with
    | zero =>
      simp only [List.getElem?_cons_zero, Option.some.injEq] at hc
      subst hc
      exact .cons h (evolves_refl cs)
    | succ i => exact .cons .refl (ih hc)

theorem evolves_append {cs cs' ds ds' : List Child} (h1 : List.Forall₂ Evolves cs cs')
    (h2 : List.Forall₂ Evolves ds ds') : List.Forall₂ Evolves (cs ++ ds) (cs' ++ ds') := by
  induction h1 with
  | nil => exact h2
  | cons h _ ih => exact .cons h ih

/-! ## The conversation -/

/-- Requests whose reply is complete or has its last frame begun, with their commands and blocks. -/
inductive Answered (X : Ext) (E : Env) (T : Prop) : List Frame → List Child → List (List Frame) → Prop where
  | nil : Answered X E T [] [] []
  | denied {reqs : List Frame} {cs : List Child} {blocks : List (List Frame)} {req g : Frame}
      (h : Answered X E T reqs cs blocks) (hr : reaction X E req = .deny g) (hg : g.Fits DEFAULT_MAX_PAYLOAD_LEN) :
      Answered X E T (reqs ++ [req]) cs (blocks ++ [[g]])
  | ran {reqs : List Frame} {cs : List Child} {blocks : List (List Frame)} {req : Frame} {c : Child}
      {taken : List StreamChunk} {code : Int32} (h : Answered X E T reqs cs blocks)
      (hr : reaction X E req = .run c.argv) (hc : Reported T c taken code) :
      Answered X E T (reqs ++ [req]) (cs ++ [c]) (blocks ++ [streamFrames taken ++ [exitFrame code]])

inductive Activity where
  | opening
  | challenged
  /-- The response has been read and is not answered. -/
  | heard
  | idle
  | asked (r : Reaction)
  | running
  | waiting
  | closing

/-- The response `resp` has been accepted for `entry`. -/
structure Greeted (E : Env) (keys : List (AuthorizedKey X)) (resp : Frame) (entry : AuthorizedKey X) : Prop where
  loaded : loadAuthorizedKeys X E.authorizedKeys = .ok keys
  challenge : (challenge E).Fits DEFAULT_MAX_PAYLOAD_LEN
  accepted : ∃ signature, authReaction E keys resp = .accept entry signature
  authOk : (authOk E entry).Fits DEFAULT_MAX_PAYLOAD_LEN

/-- The response `resp` has no answer. -/
def AuthReaction.Silent (E : Env) : AuthReaction X → Prop
  | .accept entry _ => ¬ (authOk E entry).Fits DEFAULT_MAX_PAYLOAD_LEN
  | .refuse f => ¬ f.Fits DEFAULT_MAX_PAYLOAD_LEN
  | .fail _ => True

/-- The frames that open a conversation. -/
def greeting (E : Env) (entry : AuthorizedKey X) : List Frame := [challenge E, authOk E entry]

/-- How far the conversation has got: frames read, commands spawned, frames written or begun. -/
inductive Talk (E : Env) (T : Prop) (keys : List (AuthorizedKey X)) :
    Activity → List Frame → List Child → List Frame → Prop where
  | opening : Talk E T keys .opening [] [] []
  | challenged (hk : loadAuthorizedKeys X E.authorizedKeys = .ok keys)
      (hf : (challenge E).Fits DEFAULT_MAX_PAYLOAD_LEN) : Talk E T keys .challenged [] [] [challenge E]
  | heard {resp : Frame} (hk : loadAuthorizedKeys X E.authorizedKeys = .ok keys)
      (hf : (challenge E).Fits DEFAULT_MAX_PAYLOAD_LEN) (hr : (authReaction E keys resp).Silent E) :
      Talk E T keys .heard [resp] [] [challenge E]
  | refused {resp f : Frame} (hk : loadAuthorizedKeys X E.authorizedKeys = .ok keys)
      (hc : (challenge E).Fits DEFAULT_MAX_PAYLOAD_LEN) (hr : authReaction E keys resp = .refuse f)
      (hf : f.Fits DEFAULT_MAX_PAYLOAD_LEN) : Talk E T keys .closing [resp] [] [challenge E, f]
  | idle {resp : Frame} {entry : AuthorizedKey X} {reqs : List Frame} {cs : List Child} {blocks : List (List Frame)}
      (hg : Greeted E keys resp entry) (ha : Answered X E T reqs cs blocks) :
      Talk E T keys .idle (resp :: reqs) cs (greeting E entry ++ blocks.flatten)
  | asked {resp req : Frame} {entry : AuthorizedKey X} {reqs : List Frame} {cs : List Child}
      {blocks : List (List Frame)} {r : Reaction} (hg : Greeted E keys resp entry) (ha : Answered X E T reqs cs blocks)
      (hr : reaction X E req = r) :
      Talk E T keys (.asked r) (resp :: (reqs ++ [req])) cs (greeting E entry ++ blocks.flatten)
  | running {resp req : Frame} {entry : AuthorizedKey X} {reqs : List Frame} {cs : List Child}
      {blocks : List (List Frame)} {c : Child} {taken : List StreamChunk} (hg : Greeted E keys resp entry)
      (ha : Answered X E T reqs cs blocks) (hr : reaction X E req = .run c.argv) (hc : Running c taken) :
      Talk E T keys .running (resp :: (reqs ++ [req])) (cs ++ [c])
        (greeting E entry ++ blocks.flatten ++ streamFrames taken)
  | waiting {resp req : Frame} {entry : AuthorizedKey X} {reqs : List Frame} {cs : List Child}
      {blocks : List (List Frame)} {c : Child} {taken : List StreamChunk} (hg : Greeted E keys resp entry)
      (ha : Answered X E T reqs cs blocks) (hr : reaction X E req = .run c.argv) (hc : Running c taken)
      (hd : Drained c) :
      Talk E T keys .waiting (resp :: (reqs ++ [req])) (cs ++ [c])
        (greeting E entry ++ blocks.flatten ++ streamFrames taken)
  | refusing {resp req f : Frame} {entry : AuthorizedKey X} {reqs : List Frame} {cs : List Child}
      {blocks : List (List Frame)} (hg : Greeted E keys resp entry) (ha : Answered X E T reqs cs blocks)
      (hr : reaction X E req = .refuse f) (hf : f.Fits DEFAULT_MAX_PAYLOAD_LEN) :
      Talk E T keys .closing (resp :: (reqs ++ [req])) cs (greeting E entry ++ blocks.flatten ++ [f])

theorem Answered.evolves {T : Prop} {reqs : List Frame} {cs cs' : List Child} {blocks : List (List Frame)}
    (h : Answered X E T reqs cs blocks) (he : List.Forall₂ Evolves cs cs') : Answered X E T reqs cs' blocks := by
  induction h generalizing cs' with
  | nil =>
    cases he
    exact .nil
  | denied h hr hg ih => exact .denied (ih he) hr hg
  | ran h hr hc ih =>
    obtain ⟨cs₁, c', rfl, hcs, hc'⟩ := forall₂_snoc he
    exact .ran (ih hcs) (hc'.argv ▸ hr) (hc.evolves hc')

theorem Talk.evolves {T : Prop} {keys : List (AuthorizedKey X)} {act : Activity} {reads frames : List Frame}
    {cs cs' : List Child} (h : Talk E T keys act reads cs frames) (he : List.Forall₂ Evolves cs cs') :
    Talk E T keys act reads cs' frames := by
  cases h with
  | opening => cases he; exact .opening
  | challenged hk hf => cases he; exact .challenged hk hf
  | heard hk hf hr => cases he; exact .heard hk hf hr
  | refused hk hc hr hf => cases he; exact .refused hk hc hr hf
  | idle hg ha => exact .idle hg (ha.evolves he)
  | asked hg ha hr => exact .asked hg (ha.evolves he) hr
  | running hg ha hr hc =>
    obtain ⟨cs₁, c', rfl, hcs, hc'⟩ := forall₂_snoc he
    exact .running hg (ha.evolves hcs) (hc'.argv ▸ hr) (hc.evolves hc')
  | waiting hg ha hr hc hd =>
    obtain ⟨cs₁, c', rfl, hcs, hc'⟩ := forall₂_snoc he
    exact .waiting hg (ha.evolves hcs) (hc'.argv ▸ hr) (hc.evolves hc') (hd.evolves hc')
  | refusing hg ha hr hf => exact .refusing hg (ha.evolves he) hr hf

/-! ## The session and its conversation -/

/-- What may go wrong outside the task. -/
structure Regime where
  timeouts : Prop
  ioErrors : Prop
  /-- The spawn after that many successful ones may fail. -/
  spawnFails : Nat → Prop
  /-- `child.wait()` may fail for the command of that number. -/
  waitFails : Nat → Prop

/-- Timeouts fire where `exec` waits for a chunk or for the process. -/
def Regime.Allows (R : Regime) (s : State X) : Action → Prop
  | .timeout => R.timeouts ∧ (s.pc = .recv ∨ s.pc = .wait)
  | .ioError _ => R.ioErrors
  | .spawnErr _ => R.spawnFails (children s).length
  | .waitErr _ => R.waitFails ((children s).length - 1)
  | _ => True

def Pc.activity : Pc → Option Activity
  | .start => some .opening
  | .awaitAuth | .write _ _ .authResponse => some .challenged
  | .serve | .write _ _ .authOk | .write _ _ .serve | .write _ _ .execEnd | .write _ _ .timedOut => some .idle
  | .write _ _ .finish => some .closing
  | .spawning argv => some (.asked (.run argv))
  | .recv | .write _ _ .forward => some .running
  | .wait => some .waiting
  | .done _ => none

/-- The stream holds something that no frame begins with, or has ended. -/
def Unreadable (s : State X) : Prop :=
  ∃ p e, p <+: s.inbuf ∧ readFrame DEFAULT_MAX_PAYLOAD_LEN p = .error e ∧
    (e = .unexpectedEof → p = s.inbuf ∧ s.eof = true)

/-- Why a session ended in an activity, I/O errors apart. -/
def Ends (R : Regime) (E : Env) (s : State X) : Activity → Prop
  | .opening => ∀ keys, loadAuthorizedKeys X E.authorizedKeys = .ok keys → ¬ (challenge E).Fits DEFAULT_MAX_PAYLOAD_LEN
  | .challenged | .idle => Unreadable s
  | .heard | .closing => True
  | .asked (.deny f) | .asked (.refuse f) => ¬ f.Fits DEFAULT_MAX_PAYLOAD_LEN
  | .asked (.fail _) => True
  | .asked (.run _) => R.spawnFails (children s).length
  | .running => False
  | .waiting => R.waitFails ((children s).length - 1)

/-- Where the session is in the conversation, and what of it is on the stream. -/
inductive Standing (R : Regime) (E : Env) (s : State X) (act : Activity) (frames : List Frame) : Prop where
  | live (ha : s.pc.activity = some act) (hf : frames = history s) (ho : s.out ++ s.pc.rest = encodeAll frames)
  | done (r : Except Str Unit) (hpc : s.pc = .done r) (hw : wrotesOf s.log <+: frames)
      (ho : s.out <+: encodeAll frames)
      (he : R.ioErrors ∨ (wrotesOf s.log = frames ∧ s.out = encodeAll frames ∧ Ends R E s act))

def Told (R : Regime) (E : Env) (s : State X) : Prop :=
  ∃ act frames, Talk E R.timeouts s.keys act (readsOf s.log) (children s) frames ∧ Standing R E s act frames

variable {R : Regime}

theorem told_init : Told R E (init X) := ⟨.opening, [], .opening, .live rfl rfl rfl⟩

theorem Told.live {act : Activity} (h : Told R E s) (ha : s.pc.activity = some act) :
    Talk E R.timeouts s.keys act (readsOf s.log) (children s) (history s) ∧
      s.out ++ s.pc.rest = encodeAll (history s) := by
  obtain ⟨act', frames, ht, hst⟩ := h
  cases hst with
  | live ha' hf ho =>
    rw [ha, Option.some.injEq] at ha'
    subst ha' hf
    exact ⟨ht, ho⟩
  | done r hpc =>
    rw [hpc] at ha
    cases ha

theorem Ends.congr {act : Activity} (h : Ends R E s act) (hlen : (children s').length = (children s).length)
    (hu : Unreadable s → Unreadable s') : Ends R E s' act := by
  cases act with
  | challenged => exact hu h
  | idle => exact hu h
  | asked r =>
    cases r with
    | run argv =>
      unfold Ends at h ⊢
      rw [hlen]
      exact h
    | _ => exact h
  | waiting =>
    unfold Ends at h ⊢
    rw [hlen]
    exact h
  | _ => exact h

/-- The task does not move. -/
theorem Told.evolves (h : Told R E s) (hk : s'.keys = s.keys) (hl : s'.log = s.log) (hpc : s'.pc = s.pc)
    (ho : s'.out = s.out) (hc : List.Forall₂ Evolves (children s) (children s'))
    (hu : Unreadable s → Unreadable s') : Told R E s' := by
  obtain ⟨act, frames, ht, hst⟩ := h
  refine ⟨act, frames, by rw [hk, hl]; exact ht.evolves hc, ?_⟩
  cases hst with
  | live ha hf ho' =>
    refine .live (by rw [hpc]; exact ha) ?_ (by rw [ho, hpc]; exact ho')
    unfold history
    rw [hl, hpc]
    exact hf
  | done r hr hw ho' he =>
    refine .done r (by rw [hpc]; exact hr) (by rw [hl]; exact hw) (by rw [ho]; exact ho') ?_
    rw [hl, ho]
    exact he.imp_right fun ⟨h1, h2, h3⟩ => ⟨h1, h2, h3.congr hc.length_eq.symm hu⟩

/-! ## What the task does -/

theorem children_dropRx (s : State X) : List.Forall₂ Evolves (children s) (children s.dropRx) := by
  unfold children State.dropRx
  refine evolves_append (evolves_refl _) ?_
  cases s.child with
  | none => exact .nil
  | some c => exact .cons .dropRx .nil

/-- The session ends. -/
theorem told_finish {act : Activity} {frames : List Frame} (r : Except Str Unit)
    (ht : Talk E R.timeouts s.keys act (readsOf s.log) (children s) frames) (hw : wrotesOf s.log <+: frames)
    (ho : s.out <+: encodeAll frames)
    (he : R.ioErrors ∨ (wrotesOf s.log = frames ∧ s.out = encodeAll frames ∧ Ends R E s act)) :
    Told R E (s.finish r) := by
  have hc : List.Forall₂ Evolves (children s) (children (s.finish r)) := children_dropRx s
  refine ⟨act, frames, ht.evolves hc, .done r rfl hw ho (he.imp_right fun ⟨h1, h2, h3⟩ => ⟨h1, h2, ?_⟩)⟩
  exact h3.congr hc.length_eq.symm fun h => h

/-- The session ends where it has written all its frames. -/
theorem told_stop {act : Activity} (r : Except Str Unit)
    (ht : Talk E R.timeouts s.keys act (readsOf s.log) (children s) (wrotesOf s.log))
    (ho : s.out = encodeAll (wrotesOf s.log)) (he : Ends R E s act) : Told R E (s.finish r) :=
  told_finish r ht (List.prefix_refl _) (ho ▸ List.prefix_refl _) (Or.inr ⟨rfl, ho, he⟩)

/-- A frame is begun, or is too large. -/
theorem told_beginWrite (act act' : Activity) {f : Frame} {k : Cont} (ho : s.out = encodeAll (wrotesOf s.log))
    (ha : (Pc.write f (encode f) k).activity = some act)
    (hfit : f.Fits DEFAULT_MAX_PAYLOAD_LEN →
      Talk E R.timeouts s.keys act (readsOf s.log) (children s) (wrotesOf s.log ++ [f]))
    (hno : ¬ f.Fits DEFAULT_MAX_PAYLOAD_LEN →
      Talk E R.timeouts s.keys act' (readsOf s.log) (children s) (wrotesOf s.log) ∧ Ends R E s act') :
    Told R E (s.beginWrite f k) := by
  by_cases hf : f.Fits DEFAULT_MAX_PAYLOAD_LEN
  · rw [beginWrite_fits hf]
    refine ⟨act, _, hfit hf, .live ha rfl ?_⟩
    show s.out ++ encode f = encodeAll (wrotesOf s.log ++ [f])
    rw [ho, encodeAll_append, encodeAll_cons, encodeAll_nil, List.append_nil]
  · rcases beginWrite_cases s f k with ⟨hf', -⟩ | ⟨e, he⟩
    · exact absurd hf' hf
    · obtain ⟨ht, hends⟩ := hno hf
      rw [he]
      exact told_stop _ ht ho hends

section Talk

variable {T : Prop} {keys : List (AuthorizedKey X)} {reads frames : List Frame} {cs : List Child}

theorem Talk.of_opening (h : Talk E T keys .opening reads cs frames) : reads = [] ∧ cs = [] ∧ frames = [] := by
  cases h
  exact ⟨rfl, rfl, rfl⟩

theorem Talk.of_challenged (h : Talk E T keys .challenged reads cs frames) : reads = [] ∧ cs = [] ∧
    frames = [challenge E] ∧ loadAuthorizedKeys X E.authorizedKeys = .ok keys ∧
    (challenge E).Fits DEFAULT_MAX_PAYLOAD_LEN := by
  cases h with
  | challenged hk hf => exact ⟨rfl, rfl, rfl, hk, hf⟩

theorem Talk.of_idle (h : Talk E T keys .idle reads cs frames) : ∃ resp entry reqs blocks, reads = resp :: reqs ∧
    Greeted E keys resp entry ∧ Answered X E T reqs cs blocks ∧ frames = greeting E entry ++ blocks.flatten := by
  cases h with
  | idle hg ha => exact ⟨_, _, _, _, rfl, hg, ha, rfl⟩

theorem Talk.of_run {argv : List Str} (h : Talk E T keys (.asked (.run argv)) reads cs frames) :
    ∃ resp entry reqs req blocks, reads = resp :: (reqs ++ [req]) ∧ Greeted E keys resp entry ∧
      Answered X E T reqs cs blocks ∧ reaction X E req = .run argv ∧ frames = greeting E entry ++ blocks.flatten := by
  cases h with
  | asked hg ha hr => exact ⟨_, _, _, _, _, rfl, hg, ha, hr, rfl⟩

/-- The last request is being run as `c`, of which `taken` has been received. -/
def RunsLast (E : Env) (T : Prop) (keys : List (AuthorizedKey X)) (reads : List Frame) (cs : List Child)
    (frames : List Frame) (c : Child) (taken : List StreamChunk) : Prop :=
  ∃ resp entry reqs req cs₀ blocks, reads = resp :: (reqs ++ [req]) ∧ cs = cs₀ ++ [c] ∧ Greeted E keys resp entry ∧
    Answered X E T reqs cs₀ blocks ∧ reaction X E req = .run c.argv ∧ Running c taken ∧
    frames = greeting E entry ++ blocks.flatten ++ streamFrames taken

theorem Talk.of_running (h : Talk E T keys .running reads cs frames) :
    ∃ c taken, RunsLast E T keys reads cs frames c taken := by
  cases h with
  | running hg ha hr hc => exact ⟨_, _, _, _, _, _, _, _, rfl, rfl, hg, ha, hr, hc, rfl⟩

theorem Talk.of_waiting (h : Talk E T keys .waiting reads cs frames) :
    ∃ c taken, RunsLast E T keys reads cs frames c taken ∧ Drained c := by
  cases h with
  | waiting hg ha hr hc hd => exact ⟨_, _, ⟨_, _, _, _, _, _, rfl, rfl, hg, ha, hr, hc, rfl⟩, hd⟩

variable {c : Child} {taken : List StreamChunk}

theorem RunsLast.talk (h : RunsLast E T keys reads cs frames c taken) : Talk E T keys .running reads cs frames := by
  obtain ⟨resp, entry, reqs, req, cs₀, blocks, rfl, rfl, hg, ha, hr, hc, rfl⟩ := h
  exact .running hg ha hr hc

theorem RunsLast.talk_waiting (h : RunsLast E T keys reads cs frames c taken) (hd : Drained c) :
    Talk E T keys .waiting reads cs frames := by
  obtain ⟨resp, entry, reqs, req, cs₀, blocks, rfl, rfl, hg, ha, hr, hc, rfl⟩ := h
  exact .waiting hg ha hr hc hd

theorem RunsLast.ok (h : RunsLast E T keys reads cs frames c taken) : Running c taken := by
  obtain ⟨resp, entry, reqs, req, cs₀, blocks, -, -, -, -, -, hc, -⟩ := h
  exact hc

/-- One more chunk is received. -/
theorem RunsLast.recv {ch : StreamChunk} {q : List StreamChunk} {l : List Child}
    (h : RunsLast E T keys reads (l ++ [c]) frames c taken) (hq : c.queue = ch :: q) :
    RunsLast E T keys reads (l ++ [{ c with queue := q }]) (frames ++ [chunkFrame ch]) { c with queue := q }
      (taken ++ [ch]) := by
  obtain ⟨resp, entry, reqs, req, cs₀, blocks, rfl, hcs, hg, ha, hr, hc, rfl⟩ := h
  obtain ⟨rfl, -⟩ := List.append_inj' hcs rfl
  refine ⟨resp, entry, reqs, req, l, blocks, rfl, rfl, hg, ha, hr, hc.recv hq, ?_⟩
  rw [streamFrames_append, List.append_assoc, List.append_assoc, List.append_assoc]
  rfl

/-- The exit frame of the command is begun. -/
theorem RunsLast.exit {code : Int32} (h : RunsLast E T keys reads cs frames c taken) (hc : Reported T c taken code) :
    Talk E T keys .idle reads cs (frames ++ [exitFrame code]) := by
  obtain ⟨resp, entry, reqs, req, cs₀, blocks, rfl, rfl, hg, ha, hr, -, rfl⟩ := h
  have hflat : greeting E entry ++ blocks.flatten ++ streamFrames taken ++ [exitFrame code] =
      greeting E entry ++ (blocks ++ [streamFrames taken ++ [exitFrame code]]).flatten := by
    rw [List.flatten_append, List.flatten_singleton]
    simp only [List.append_assoc]
  rw [hflat]
  exact .idle hg (.ran ha hr hc)

end Talk

/-! ## Steps -/

/-- No frame is being written. -/
theorem Told.quiet {act : Activity} (h : Told R E s) (ha : s.pc.activity = some act) (hb : s.pc.begun = [])
    (hr : s.pc.rest = []) :
    Talk E R.timeouts s.keys act (readsOf s.log) (children s) (wrotesOf s.log) ∧ s.out = encodeAll (wrotesOf s.log) := by
  have hh : history s = wrotesOf s.log := by rw [history, hb, List.append_nil]
  have hlive := h.live ha
  rw [hh, hr, List.append_nil] at hlive
  exact hlive

theorem told_start (h : Told R E s) (hpc : s.pc = .start) : Told R E (start E s) := by
  obtain ⟨ht, ho⟩ := h.quiet (by rw [hpc]; rfl) (by rw [hpc]; rfl) (by rw [hpc]; rfl)
  obtain ⟨hreads, hcs, hw⟩ := ht.of_opening
  unfold Session.start
  cases hload : loadAuthorizedKeys X E.authorizedKeys with
  | error e =>
    refine told_stop _ ht ho ?_
    intro keys hk
    rw [hload] at hk
    cases hk
  | ok keys =>
    refine told_beginWrite .challenged .opening ho rfl ?_ ?_
    · intro hf
      show Talk E R.timeouts keys .challenged (readsOf s.log) (children s) (wrotesOf s.log ++ [challenge E])
      rw [hreads, hcs, hw]
      exact .challenged hload hf
    · intro hf
      refine ⟨?_, fun _ _ => hf⟩
      show Talk E R.timeouts keys .opening (readsOf s.log) (children s) (wrotesOf s.log)
      rw [hreads, hcs, hw]
      exact .opening

theorem told_readAuth (h : Told R E s) (hpc : s.pc = .awaitAuth) (f : Frame) (r : Bytes) :
    Told R E (handleAuth E ({ s with inbuf := r }.emit (.read f)) f) := by
  obtain ⟨ht, ho⟩ := h.quiet (by rw [hpc]; rfl) (by rw [hpc]; rfl) (by rw [hpc]; rfl)
  obtain ⟨hreads, hcs, hw, hk, hf⟩ := ht.of_challenged
  generalize ht' : State.emit { s with inbuf := r } (.read f) = t
  have hkt : t.keys = s.keys := by rw [← ht']; rfl
  have hrt : readsOf t.log = [f] := by rw [← ht']; simp [hreads]
  have hct : children t = [] := by rw [← ht']; exact hcs
  have hwt : wrotesOf t.log = [challenge E] := by rw [← ht']; simp [hw]
  have hot : t.out = encodeAll (wrotesOf t.log) := by rw [← ht']; simpa using ho
  -- without an answer
  have hheard : (authReaction E s.keys f).Silent E →
      Talk E R.timeouts t.keys .heard (readsOf t.log) (children t) (wrotesOf t.log) := by
    intro hsil
    rw [hkt, hrt, hct, hwt]
    exact .heard hk hf hsil
  rw [handleAuth_reaction, hkt]
  cases hre : authReaction E s.keys f with
  | accept entry signature =>
    refine told_beginWrite .idle .heard (by simpa using hot) rfl ?_ ?_
    · intro hfit
      have hidle : Talk E R.timeouts s.keys .idle [f] [] (greeting E entry ++ [].flatten) :=
        .idle ⟨hk, hf, ⟨signature, hre⟩, hfit⟩ .nil
      show Talk E R.timeouts t.keys .idle (readsOf (t.log ++ [_])) (children t) (wrotesOf (t.log ++ [_]) ++ [authOk E entry])
      simp only [readsOf_append, wrotesOf_append, readsOf_authed, wrotesOf_authed, readsOf_nil, wrotesOf_nil,
        List.append_nil]
      rw [hkt, hrt, hct, hwt]
      exact hidle
    · intro hfit
      have hsil := hheard (by rw [hre]; exact hfit)
      refine ⟨?_, trivial⟩
      show Talk E R.timeouts t.keys .heard (readsOf (t.log ++ [_])) (children t) (wrotesOf (t.log ++ [_]))
      simpa using hsil
  | refuse g =>
    refine told_beginWrite .closing .heard hot rfl ?_ ?_
    · intro hfit
      rw [hkt, hrt, hct, hwt]
      exact .refused hk hf hre hfit
    · intro hfit
      exact ⟨hheard (by rw [hre]; exact hfit), trivial⟩
  | fail e => exact told_stop _ (hheard (by rw [hre]; trivial)) hot trivial

theorem told_readServe (h : Told R E s) (hpc : s.pc = .serve) (f : Frame) (r : Bytes) :
    Told R E (handleFrame E ({ s with inbuf := r }.emit (.read f)) f) := by
  obtain ⟨ht, ho⟩ := h.quiet (by rw [hpc]; rfl) (by rw [hpc]; rfl) (by rw [hpc]; rfl)
  obtain ⟨resp, entry, reqs, blocks, hreads, hg, ha, hw⟩ := ht.of_idle
  generalize ht' : State.emit { s with inbuf := r } (.read f) = t
  have hkt : t.keys = s.keys := by rw [← ht']; rfl
  have hrt : readsOf t.log = resp :: (reqs ++ [f]) := by rw [← ht']; simp [hreads]
  have hct : children t = children s := by rw [← ht']; rfl
  have hwt : wrotesOf t.log = greeting E entry ++ blocks.flatten := by rw [← ht']; simp [hw]
  have hot : t.out = encodeAll (wrotesOf t.log) := by rw [← ht']; simpa using ho
  have hasked : ∀ a, reaction X E f = a →
      Talk E R.timeouts t.keys (.asked a) (readsOf t.log) (children t) (wrotesOf t.log) := by
    intro a hra
    rw [hkt, hrt, hct, hwt]
    exact .asked hg ha hra
  rw [handleFrame_reaction]
  cases hre : reaction X E f with
  | deny g =>
    refine told_beginWrite .idle (.asked (.deny g)) hot rfl ?_ ?_
    · intro hfit
      have hflat : greeting E entry ++ blocks.flatten ++ [g] = greeting E entry ++ (blocks ++ [[g]]).flatten := by
        rw [List.flatten_append, List.flatten_singleton, List.append_assoc]
      rw [hkt, hrt, hct, hwt, hflat]
      exact .idle hg (.denied ha hre hfit)
    · intro hfit
      exact ⟨hasked _ hre, hfit⟩
  | run argv => exact ⟨_, _, hasked _ hre, .live rfl (by simp [history, Pc.begun]) (by simpa [Pc.rest] using hot)⟩
  | refuse g =>
    refine told_beginWrite .closing (.asked (.refuse g)) hot rfl ?_ ?_
    · intro hfit
      rw [hkt, hrt, hct, hwt]
      exact .refusing hg ha hre hfit
    · intro hfit
      exact ⟨hasked _ hre, hfit⟩
  | fail e => exact told_stop _ (hasked _ hre) hot trivial

theorem told_readFail (h : Told R E s) (r : Except Str Unit) {e : ProtocolError} (hpc : s.pc = .awaitAuth ∨ s.pc = .serve)
    (hr : readFrame DEFAULT_MAX_PAYLOAD_LEN s.inbuf = .error e) (he : e = .unexpectedEof → s.eof = true) :
    Told R E (s.finish r) := by
  have hu : Unreadable s := ⟨s.inbuf, e, List.prefix_refl _, hr, fun hee => ⟨rfl, he hee⟩⟩
  rcases hpc with hpc | hpc
  · obtain ⟨ht, ho⟩ := h.quiet (by rw [hpc]; rfl) (by rw [hpc]; rfl) (by rw [hpc]; rfl)
    exact told_stop r ht ho hu
  · obtain ⟨ht, ho⟩ := h.quiet (by rw [hpc]; rfl) (by rw [hpc]; rfl) (by rw [hpc]; rfl)
    exact told_stop r ht ho hu

theorem told_put (h : Told R E s) {f : Frame} {rest : Bytes} {k : Cont} (hpc : s.pc = .write f rest k) (n : Nat) :
    Told R E { s with out := s.out ++ rest.take n, pc := .write f (rest.drop n) k } := by
  obtain ⟨act, hact⟩ : ∃ act, (Pc.write f rest k).activity = some act := by cases k <;> exact ⟨_, rfl⟩
  obtain ⟨ht, ho⟩ := h.live (by rw [hpc]; exact hact)
  have hh : history s = wrotesOf s.log ++ [f] := by rw [history, hpc]; rfl
  have hrest : s.pc.rest = rest := by rw [hpc]; rfl
  rw [hrest, hh] at ho
  rw [hh] at ht
  refine ⟨act, _, ht, .live (by cases k <;> exact hact) rfl ?_⟩
  show s.out ++ rest.take n ++ rest.drop n = _
  rw [List.append_assoc, List.take_append_drop]
  exact ho

/-- A state that differs in its place, and in a receiver dropped, from one that wrote `f`. -/
theorem told_wrote {act : Activity} {f : Frame} (h : Talk E R.timeouts s.keys act (readsOf s.log) (children s)
    (wrotesOf s.log ++ [f])) (ho : s.out = encodeAll (wrotesOf s.log ++ [f])) (hk : s'.keys = s.keys)
    (hl : s'.log = s.log ++ [.wrote f]) (hc : List.Forall₂ Evolves (children s) (children s')) (hout : s'.out = s.out)
    (ha : s'.pc.activity = some act) (hb : s'.pc.begun = []) (hr : s'.pc.rest = []) : Told R E s' := by
  have hh : history s' = wrotesOf s.log ++ [f] := by rw [history, hb, hl]; simp
  refine ⟨act, history s', ?_, .live ha rfl (by rw [hr, hh, hout, ho, List.append_nil])⟩
  rw [hh, hk, hl, readsOf_append, readsOf_wrote, readsOf_nil, List.append_nil]
  exact h.evolves hc

theorem told_flushed (h : Told R E s) {f : Frame} {k : Cont} (hpc : s.pc = .write f [] k) :
    Told R E (afterWrite s f k) := by
  have hlive : ∀ act, (Pc.write f [] k).activity = some act →
      Talk E R.timeouts s.keys act (readsOf s.log) (children s) (wrotesOf s.log ++ [f]) ∧
        s.out = encodeAll (wrotesOf s.log ++ [f]) := by
    intro act hact
    obtain ⟨ht, ho⟩ := h.live (by rw [hpc]; exact hact)
    have hh : history s = wrotesOf s.log ++ [f] := by rw [history, hpc]; rfl
    have hrest : s.pc.rest = [] := by rw [hpc]; rfl
    rw [hh, hrest, List.append_nil] at ho
    exact ⟨hh ▸ ht, ho⟩
  cases k with
  | finish =>
    obtain ⟨ht, ho⟩ := hlive .closing rfl
    have ht' : Talk E R.timeouts s.keys .closing (readsOf (s.emit (.wrote f)).log) (children s)
        (wrotesOf (s.emit (.wrote f)).log) := by simpa using ht
    exact told_stop _ ht' (by simpa using ho) trivial
  | execEnd =>
    obtain ⟨ht, ho⟩ := hlive .idle rfl
    exact told_wrote ht ho rfl rfl (children_dropRx _) rfl rfl rfl rfl
  | timedOut =>
    obtain ⟨ht, ho⟩ := hlive .idle rfl
    exact told_wrote ht ho rfl rfl (children_dropRx _) rfl rfl rfl rfl
  | _ =>
    obtain ⟨ht, ho⟩ := hlive _ rfl
    exact told_wrote ht ho rfl rfl (evolves_refl _) rfl rfl rfl rfl

theorem told_ioError (h : Told R E s) (r : Except Str Unit) (hpc : s.pc.onStream = true) (hio : R.ioErrors) :
    Told R E (s.finish r) := by
  obtain ⟨act, hact⟩ : ∃ act, s.pc.activity = some act := by
    generalize hp : s.pc = pc at hpc
    cases pc with
    | write f rest k => cases k <;> exact ⟨_, rfl⟩
    | awaitAuth => exact ⟨_, rfl⟩
    | serve => exact ⟨_, rfl⟩
    | _ => cases hpc
  obtain ⟨ht, ho⟩ := h.live hact
  exact told_finish r ht (List.prefix_append _ _) ⟨_, ho⟩ (Or.inl hio)

theorem told_spawned (h : Told R E s) {argv : List Str} (hpc : s.pc = .spawning argv) :
    Told R E (spawned s argv) := by
  obtain ⟨ht, ho⟩ := h.quiet (by rw [hpc]; rfl) (by rw [hpc]; rfl) (by rw [hpc]; rfl)
  obtain ⟨resp, entry, reqs, req, blocks, hreads, hg, ha, hr, hw⟩ := ht.of_run
  have hcs : children (spawned s argv) = children s ++ [Child.spawn argv] := rfl
  have hreads' : readsOf (spawned s argv).log = readsOf s.log := by simp [spawned]
  have hw' : history (spawned s argv) = wrotesOf s.log := by simp [history, spawned, Pc.begun]
  refine ⟨.running, history (spawned s argv), ?_, .live rfl rfl ?_⟩
  · have hrun := Talk.running (T := R.timeouts) (c := Child.spawn argv) hg ha hr (running_spawn argv)
    rw [streamFrames_nil, List.append_nil, ← hw] at hrun
    rw [hcs, hreads', hreads, hw']
    exact hrun
  · rw [hw', ← ho]
    exact List.append_nil _

theorem RunsLast.child {T : Prop} {keys : List (AuthorizedKey X)} {reads frames : List Frame} {c c' : Child}
    {taken : List StreamChunk} (h : RunsLast E T keys reads (children s) frames c taken) (hc : s.child = some c') :
    c = c' ∧ children s = s.leftover ++ [c'] := by
  obtain ⟨resp, entry, reqs, req, cs₀, blocks, -, hcs, -⟩ := h
  have hs : children s = s.leftover ++ [c'] := by rw [children, hc]; rfl
  rw [hs] at hcs
  have hlast := (List.append_inj' hcs rfl).2
  rw [List.cons.injEq] at hlast
  exact ⟨hlast.1.symm, hs⟩

theorem told_recv (h : Told R E s) {c : Child} {ch : StreamChunk} {q : List StreamChunk} (hpc : s.pc = .recv)
    (hc : s.child = some c) (hq : c.queue = ch :: q) :
    Told R E ({ s with child := some { c with queue := q } }.beginWrite (chunkFrame ch) .forward) := by
  obtain ⟨ht, ho⟩ := h.quiet (by rw [hpc]; rfl) (by rw [hpc]; rfl) (by rw [hpc]; rfl)
  obtain ⟨c₀, taken, hrun⟩ := ht.of_running
  obtain ⟨rfl, hcs⟩ := hrun.child hc
  have hfit : (chunkFrame ch).Fits DEFAULT_MAX_PAYLOAD_LEN := by
    refine chunkFrame_fits (hrun.ok.ok ch ?_)
    rw [hrun.ok.queue, hq]
    simp
  rw [hcs] at hrun
  refine told_beginWrite .running .running ho rfl ?_ fun hno => absurd hfit hno
  intro _
  exact (hrun.recv hq).talk

theorem told_exit {code : Int32} {c : Child} {taken : List StreamChunk} {k : Cont} {e : Event X}
    (hk : k = .execEnd ∨ k = .timedOut) (he : readsOf [e] = [] ∧ wrotesOf [e] = [])
    (hrun : RunsLast E R.timeouts s.keys (readsOf s.log) (children s) (wrotesOf s.log) c taken)
    (ho : s.out = encodeAll (wrotesOf s.log)) (hc : Reported R.timeouts c taken code) :
    Told R E ((s.emit e).beginWrite (exitFrame code) k) := by
  have hact : (Pc.write (exitFrame code) (encode (exitFrame code)) k).activity = some .idle := by
    rcases hk with rfl | rfl <;> rfl
  have hw : wrotesOf (s.emit e).log = wrotesOf s.log := by rw [emit_log, wrotesOf_append, he.2, List.append_nil]
  have hr : readsOf (s.emit e).log = readsOf s.log := by rw [emit_log, readsOf_append, he.1, List.append_nil]
  refine told_beginWrite .idle .running (by rw [hw]; exact ho) hact ?_ fun hno => absurd (exitFrame_fits _) hno
  intro _
  rw [hw, hr]
  exact hrun.exit hc

theorem told_waitOk (h : Told R E s) {c : Child} {st : Option Int32} (hpc : s.pc = .wait) (hc : s.child = some c)
    (hst : c.status = some st) : Told R E ((s.emit .reaped).beginWrite (exitFrame (st.getD (-1))) .execEnd) := by
  obtain ⟨ht, ho⟩ := h.quiet (by rw [hpc]; rfl) (by rw [hpc]; rfl) (by rw [hpc]; rfl)
  obtain ⟨c₀, taken, hrun, hd⟩ := ht.of_waiting
  obtain ⟨rfl, -⟩ := hrun.child hc
  exact told_exit (Or.inl rfl) ⟨rfl, rfl⟩ hrun ho (hrun.ok.reported hd hst)

theorem told_timeout (h : Told R E s) (hT : R.timeouts) (hpc : s.pc = .recv ∨ s.pc = .wait) :
    Told R E (timeout s) := by
  have hrun : ∃ c taken, RunsLast E R.timeouts s.keys (readsOf s.log) (children s) (wrotesOf s.log) c taken ∧
      s.out = encodeAll (wrotesOf s.log) := by
    rcases hpc with hpc | hpc
    · obtain ⟨ht, ho⟩ := h.quiet (by rw [hpc]; rfl) (by rw [hpc]; rfl) (by rw [hpc]; rfl)
      obtain ⟨c, taken, hrun⟩ := ht.of_running
      exact ⟨c, taken, hrun, ho⟩
    · obtain ⟨ht, ho⟩ := h.quiet (by rw [hpc]; rfl) (by rw [hpc]; rfl) (by rw [hpc]; rfl)
      obtain ⟨c, taken, hrun, -⟩ := ht.of_waiting
      exact ⟨c, taken, hrun, ho⟩
  obtain ⟨c, taken, hrun, ho⟩ := hrun
  exact told_exit (Or.inr rfl) ⟨rfl, rfl⟩ hrun ho (hrun.ok.timedOut hT)

theorem told_step {a : Action} (ha : R.Allows s a) (h : Told R E s) (hs : step E s a = some s') : Told R E s' := by
  cases step_cases hs with
  | clientSend b he =>
    refine h.evolves rfl rfl rfl rfl (evolves_refl _) ?_
    rintro ⟨p, e, hp, hr, heof⟩
    refine ⟨p, e, hp.trans (List.prefix_append _ _), hr, fun hee => ?_⟩
    rw [(heof hee).2] at he
    cases he
  | clientClose =>
    refine h.evolves rfl rfl rfl rfl (evolves_refl _) ?_
    rintro ⟨p, e, hp, hr, heof⟩
    exact ⟨p, e, hp, hr, fun hee => ⟨(heof hee).1, rfl⟩⟩
  | child a c c' hc hstep =>
    refine h.evolves rfl rfl rfl rfl ?_ fun hu => hu
    unfold children
    rw [hc]
    exact evolves_append (evolves_refl _) (.cons (.step hstep) .nil)
  | leftover i a c c' hc hstep =>
    refine h.evolves rfl rfl rfl rfl ?_ fun hu => hu
    exact evolves_append (evolves_set hc (.step hstep)) (evolves_refl _)
  | start hpc => exact told_start h hpc
  | readAuth f r hpc hr => exact told_readAuth h hpc f r
  | readServe f r hpc hr => exact told_readServe h hpc f r
  | readFail r e hpc hr he => exact told_readFail h r hpc hr he
  | put n f rest k hpc h0 hn => exact told_put h hpc n
  | flushed f k hpc => exact told_flushed h hpc
  | ioError e hpc => exact told_ioError h _ hpc ha
  | spawnOk argv hpc => exact told_spawned h hpc
  | spawnErr e argv hpc =>
    obtain ⟨ht, ho⟩ := h.quiet (by rw [hpc]; rfl) (by rw [hpc]; rfl) (by rw [hpc]; rfl)
    exact told_stop _ ht ho ha
  | recv c ch q hpc hc hq => exact told_recv h hpc hc hq
  | recvNone c hpc hc hq hg =>
    obtain ⟨ht, ho⟩ := h.quiet (by rw [hpc]; rfl) (by rw [hpc]; rfl) (by rw [hpc]; rfl)
    obtain ⟨c₀, taken, hrun⟩ := ht.of_running
    obtain ⟨rfl, -⟩ := hrun.child hc
    exact ⟨.waiting, _, hrun.talk_waiting ⟨hq, hg⟩, .live rfl (by simp [history, Pc.begun]) (by simpa [Pc.rest] using ho)⟩
  | waitOk c st hpc hc hst => exact told_waitOk h hpc hc hst
  | waitErr e hpc =>
    obtain ⟨ht, ho⟩ := h.quiet (by rw [hpc]; rfl) (by rw [hpc]; rfl) (by rw [hpc]; rfl)
    exact told_stop _ ht ho ha
  | timeout hpc => exact told_timeout h ha.1 ha.2

/-- **In every run whose steps the regime allows**, the conversation and the stream are in line. -/
theorem told_run {as : List Action} (ha : Lts.Meets (step E) R.Allows (init X) as) (h : run E (init X) as = some s) :
    Told R E s :=
  Lts.run_inv_meets (Told R E) (fun _ _ _ hG hi hs => told_step hG hi hs) ha told_init h

end Sao.Session
