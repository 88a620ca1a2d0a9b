import Sao.Server.Opening
import Sao.Server.Transcript

/-!
# The grammar of a session, and the isolation of its commands

* `writes_conversation` — as long as no timeout fires in the middle of a write, the frames a session
  writes are the beginning of a conversation: the challenge, the verdict on the response, one block
  for each request in order, and at most one closing error. A block is a refusal, or output of the
  request's own process followed by one exit frame.
-/

namespace Sao.Session

open MsgType State Child

variable {X : Ext} {E : Env} {s s' : State X}

/-- Requests with the commands spawned for them and their blocks. -/
inductive Replies (X : Ext) (E : Env) : List Frame → List Child → List (List Frame) → Prop where
  | nil : Replies X E [] [] []
  | denied {reqs : List Frame} {cs : List Child} {blocks : List (List Frame)} {req : Frame}
      (h : Replies X E reqs cs blocks) (msg : Str) :
      Replies X E (reqs ++ [req]) cs (blocks ++ [[jsonFrame POLICY_DENIED (policyDeniedJson msg)]])
  | ran {reqs : List Frame} {cs : List Child} {blocks : List (List Frame)} {req : Frame} {c : Child} {shell : Str}
      {taken : List StreamChunk} (h : Replies X E reqs cs blocks) (hs : X.execShell req.payload = .ok shell)
      (hargv : c.argv = E.config.shellArgv ++ [shell]) (hown : ∀ fd, dataOf fd taken <+: (c.pipe fd).wrote)
      (code : Int32) : Replies X E (reqs ++ [req]) (cs ++ [c]) (blocks ++ [streamFrames taken ++ [exitFrame code]])

/-- The requests among the frames that follow the response. -/
def requests (rest : List Frame) : List Frame := rest.filter fun f => f.msgType = EXEC_SHELL

theorem requests_append (fs gs : List Frame) : requests (fs ++ gs) = requests fs ++ requests gs := List.filter_append ..

theorem requests_single {f : Frame} (h : f.msgType = EXEC_SHELL) : requests [f] = [f] := by simp [requests, h]

/-- A whole conversation, with the frames read and the commands spawned in it. -/
inductive Conversation (X : Ext) (E : Env) : List Frame → List Child → List Frame → Prop where
  | error {reads : List Frame} (code message : Str) :
    Conversation X E reads [] [challenge E, jsonFrame ERROR (errorJson code message)]
  | refused {reads : List Frame} (reason message : Str) :
    Conversation X E reads [] [challenge E, jsonFrame AUTH_RESULT (authFailJson reason message)]
  | served {resp : Frame} {rest reqs : List Frame} {cs : List Child} {blocks : List (List Frame)} {last : List Frame}
      (entry : AuthorizedKey X) (h : Replies X E reqs cs blocks) (hreqs : reqs <+: requests rest)
      (hlast : last = [] ∨ ∃ code message, last = [jsonFrame ERROR (errorJson code message)]) :
    Conversation X E (resp :: rest) cs ([challenge E, authOk E entry] ++ blocks.flatten ++ last)

/-! ## Reactions -/

theorem reaction_deny {req g : Frame} (h : reaction X E req = .deny g) :
    req.msgType = EXEC_SHELL ∧ ∃ msg, g = jsonFrame POLICY_DENIED (policyDeniedJson msg) := by
  unfold reaction at h
  split at h
  · rename_i hmt
    split at h
    · cases h
    · split at h
      · cases h
        exact ⟨hmt, _, rfl⟩
      · split at h <;> cases h
  · cases h

theorem reaction_run {req : Frame} {argv : List Str} (h : reaction X E req = .run argv) :
    req.msgType = EXEC_SHELL ∧ ∃ shell, X.execShell req.payload = .ok shell ∧ argv = E.config.shellArgv ++ [shell] := by
  unfold reaction at h
  split at h
  · rename_i hmt
    split at h
    · cases h
    · rename_i shell hs
      split at h
      · cases h
      · split at h
        · cases h
        · cases h
          exact ⟨hmt, shell, hs, rfl⟩
  · cases h

theorem reaction_refuse {req g : Frame} (h : reaction X E req = .refuse g) :
    ∃ code message, g = jsonFrame ERROR (errorJson code message) := by
  unfold reaction at h
  split at h
  · split at h
    · cases h
    · split at h
      · cases h
      · split at h <;> cases h
  · cases h
    exact ⟨_, _, rfl⟩

theorem authReaction_refuse {keys : List (AuthorizedKey X)} {resp g : Frame} (h : authReaction E keys resp = .refuse g) :
    (∃ code message, g = jsonFrame ERROR (errorJson code message)) ∨
    ∃ reason message, g = jsonFrame AUTH_RESULT (authFailJson reason message) := by
  unfold authReaction at h
  split at h
  · cases h
    exact Or.inl ⟨_, _, rfl⟩
  · cases h
  · cases h
    exact Or.inr ⟨_, _, rfl⟩
  · cases h

/-! ## From a conversation under way to a whole one -/

variable {T : Prop} {keys : List (AuthorizedKey X)}

/-- The data of a command's block is its own. -/
theorem own_data {c : Child} {taken : List StreamChunk} (hf : c.Faithful) (ht : taken <+: c.sent) (fd : Fd) :
    dataOf fd taken <+: (c.pipe fd).wrote :=
  (dataOf_isPrefix ht fd).trans (hf.sent fd)

theorem Answered.replies {reqs : List Frame} {cs : List Child} {blocks : List (List Frame)}
    (h : Answered X E T reqs cs blocks) : Replies X E reqs cs blocks ∧ requests reqs = reqs := by
  induction h with
  | nil => exact ⟨.nil, rfl⟩
  | denied h hr hg ih =>
    obtain ⟨hmt, msg, rfl⟩ := reaction_deny hr
    refine ⟨.denied ih.1 msg, ?_⟩
    rw [requests_append, ih.2, requests_single hmt]
  | ran h hr hc ih =>
    obtain ⟨hmt, shell, hs, hargv⟩ := reaction_run hr
    refine ⟨.ran ih.1 hs hargv (own_data hc.faithful hc.sent) _, ?_⟩
    rw [requests_append, ih.2, requests_single hmt]

theorem requests_isPrefix {reqs : List Frame} (h : requests reqs = reqs) (more : List Frame) :
    reqs <+: requests (reqs ++ more) :=
  ⟨requests more, by rw [requests_append, h]⟩

/-- A command under way is completed by any exit frame. -/
theorem running_conversation {resp req : Frame} {entry : AuthorizedKey X} {reqs : List Frame} {cs : List Child}
    {blocks : List (List Frame)} {c : Child} {taken : List StreamChunk} (ha : Answered X E T reqs cs blocks)
    (hr : reaction X E req = .run c.argv) (hc : Running c taken) :
    ∃ full, Conversation X E (resp :: (reqs ++ [req])) (cs ++ [c]) full ∧
      greeting E entry ++ blocks.flatten ++ streamFrames taken <+: full := by
  obtain ⟨hrep, hreqs⟩ := ha.replies
  obtain ⟨hmt, shell, hs, hargv⟩ := reaction_run hr
  have hown := own_data hc.faithful (show taken <+: c.sent from ⟨c.queue, hc.queue.symm⟩)
  have hall : requests (reqs ++ [req]) = reqs ++ [req] := by
    rw [requests_append, hreqs, requests_single hmt]
  refine ⟨_, .served entry (.ran hrep hs hargv hown 0) ⟨[], by rw [hall, List.append_nil]⟩ (Or.inl rfl), ?_⟩
  refine ⟨[exitFrame 0], ?_⟩
  rw [List.flatten_append, List.flatten_singleton, List.append_nil]
  simp only [List.append_assoc, greeting]

theorem Talk.conversation {act : Activity} {reads frames : List Frame} {cs : List Child}
    (h : Talk E T keys act reads cs frames) : ∃ full, Conversation X E reads cs full ∧ frames <+: full := by
  cases h with
  | opening => exact ⟨_, .error [] [], List.nil_prefix⟩
  | challenged hk hf => exact ⟨_, .error [] [], ⟨_, rfl⟩⟩
  | heard hk hf hr => exact ⟨_, .error [] [], ⟨_, rfl⟩⟩
  | refused hk hc hr hf =>
    rcases authReaction_refuse hr with ⟨code, message, rfl⟩ | ⟨reason, message, rfl⟩
    · exact ⟨_, .error code message, List.prefix_refl _⟩
    · exact ⟨_, .refused reason message, List.prefix_refl _⟩
  | @idle resp entry reqs _ blocks hg ha =>
    obtain ⟨hrep, hreqs⟩ := ha.replies
    refine ⟨_, .served entry hrep ⟨[], by rw [hreqs, List.append_nil]⟩ (Or.inl rfl), ?_⟩
    exact List.prefix_append _ _
  | @asked resp req entry reqs _ blocks r hg ha hr =>
    obtain ⟨hrep, hreqs⟩ := ha.replies
    refine ⟨_, .served entry hrep (requests_isPrefix hreqs _) (Or.inl rfl), ?_⟩
    exact List.prefix_append _ _
  | running hg ha hr hc => exact running_conversation ha hr hc
  | waiting hg ha hr hc hd => exact running_conversation ha hr hc
  | @refusing resp req f entry reqs _ blocks hg ha hr hf =>
    obtain ⟨hrep, hreqs⟩ := ha.replies
    obtain ⟨code, message, rfl⟩ := reaction_refuse hr
    exact ⟨_, .served entry hrep (requests_isPrefix hreqs _) (Or.inr ⟨code, message, rfl⟩), List.prefix_refl _⟩

theorem Standing.prefixes {R : Regime} {act : Activity} {frames : List Frame} (h : Standing R E s act frames) :
    wrotesOf s.log <+: frames ∧ s.out <+: encodeAll frames := by
  cases h with
  | live ha hf ho => exact ⟨hf ▸ List.prefix_append _ _, ⟨_, ho⟩⟩
  | done r hpc hw ho he => exact ⟨hw, ho⟩

/-- A timeout fires only where `exec` waits for a chunk or for the process. -/
def TimeoutAtWait (s : State X) (a : Action) : Prop := a = .timeout → s.pc = .recv ∨ s.pc = .wait

/-- Everything may go wrong outside. -/
def anything : Regime := ⟨True, True, fun _ => True, fun _ => True⟩

/-- **The grammar of a session.** In every run in which timeouts fire only at the two waits of
`exec`, what is written is the beginning of a conversation about the frames read, in which the block
of each request holds output of its own process only. -/
theorem writes_conversation (X : Ext) (E : Env) (as : List Action) (s : State X) (h : run E (init X) as = some s)
    (hcut : Lts.Meets (step E) TimeoutAtWait (init X) as) :
    s.received = encodeAll (readsOf s.log) ++ s.inbuf ∧
    ∃ frames, Conversation X E (readsOf s.log) (children s) frames ∧ wrotesOf s.log <+: frames ∧
      s.out <+: encodeAll frames := by
  have hallow : Lts.Meets (step E) anything.Allows (init X) as := by
    refine hcut.mono fun s a ha => ?_
    cases a with
    | timeout => exact ⟨trivial, ha rfl⟩
    | _ => trivial
  obtain ⟨act, frames, ht, hst⟩ := told_run hallow h
  obtain ⟨full, hconv, hfull⟩ := ht.conversation
  obtain ⟨hw, ho⟩ := hst.prefixes
  refine ⟨(inv_run h).base.stream, full, hconv, hw.trans hfull, ho.trans ?_⟩
  obtain ⟨more, rfl⟩ := hfull
  rw [encodeAll_append]
  exact List.prefix_append _ _

/-- Two requests are sent at once. The client has the response read and its first command spawned. -/
def pipelinedActions : List Action :=
  openingActions sampleEnv ++ [.clientSend (encode sampleResponse ++ (encode sampleRequest ++ encode sampleRequest)),
    .read, .put (encode (authOk sampleEnv Sample.entry)).length, .flushed, .read, .spawnOk]

/-- The first command is timed out, the second spawned, and the first goes on writing. -/
def overlappingActions : List Action :=
  [.timeout, .put (encode (exitFrame 124)).length, .flushed, .read, .spawnOk, .leftover 0 (.write .out [104])]

theorem run_pipelined : ∃ s : State Ext.sample, run sampleEnv (init Ext.sample) pipelinedActions = some s ∧
    s.pc = .recv ∧ s.inbuf = encode sampleRequest ∧ s.child = some (Child.spawn ["bash".toList, "-lc".toList, "id".toList]) ∧
    s.leftover = [] ∧ readsOf s.log = [sampleResponse, sampleRequest] := by
  have hfits : ∀ g ∈ [challenge sampleEnv, sampleResponse, authOk sampleEnv Sample.entry, sampleRequest],
      g.Fits DEFAULT_MAX_PAYLOAD_LEN := by decide +kernel
  have hsend : step sampleEnv (waiting sampleEnv [Sample.entry])
      (.clientSend (encode sampleResponse ++ (encode sampleRequest ++ encode sampleRequest))) = some _ := rfl
  have hrun := (run_cons_eq hsend [.read, .put (encode (authOk sampleEnv Sample.entry)).length, .flushed, .read,
    .spawnOk]).trans (run_cons_eq (step_readAuth rfl (hfits _ (by simp)) rfl) _)
  rw [handleAuth_accepted accepted_sample (hfits _ (by simp)), run_write rfl,
    run_cons_eq (step_readServe rfl (hfits _ (by simp)) rfl), handleFrame_permitted permitted_sample (by decide)] at hrun
  exact ⟨_, Lts.run_append.2 ⟨_, run_opening Sample.load_keyFile (hfits _ (by simp)), hrun⟩, rfl, rfl, rfl, rfl, rfl⟩

theorem run_overlapping {s : State Ext.sample} {argv : List Str} (hpc : s.pc = .recv)
    (hin : s.inbuf = encode sampleRequest) (hchild : s.child = some (Child.spawn argv)) (hleft : s.leftover = []) :
    ∃ t, run sampleEnv s overlappingActions = some t ∧ t.leftover ≠ [] ∧ (children t).length = 2 ∧
      readsOf t.log = readsOf s.log ++ [sampleRequest] := by
  have hreq : sampleRequest.Fits DEFAULT_MAX_PAYLOAD_LEN := by decide +kernel
  have htime : step sampleEnv s .timeout = some { s.emit (.killed s.pc) with
      pc := .write (exitFrame 124) (encode (exitFrame 124)) .timedOut } := by
    simp only [step, hpc, Pc.inExec, if_true, timeout, beginWrite_fits (exitFrame_fits _)]
  have hrun := (run_cons_eq htime _).trans (run_write (E := sampleEnv) rfl [.read, .spawnOk, .leftover 0 (.write .out [104])])
  rw [run_cons_eq (step_readServe (r := []) rfl hreq (by rw [List.append_nil]; exact hin)),
    handleFrame_permitted permitted_sample (by decide)] at hrun
  obtain ⟨received, inbuf, eof, out, keys, pc, child, leftover, log⟩ := s
  dsimp only at hpc hin hchild hleft
  subst hpc hin hchild hleft
  refine ⟨_, hrun, List.cons_ne_nil _ _, rfl, ?_⟩
  simp [spawned, afterWrite, State.dropRx, State.emit]

/-- The second command runs while the first one's reader tasks are still there. -/
theorem writes_conversation_pipelined : ∃ (as : List Action) (s : State Ext.sample),
    run sampleEnv (init Ext.sample) as = some s ∧ readsOf s.log = [sampleResponse, sampleRequest, sampleRequest] ∧
    s.leftover ≠ [] ∧ (children s).length = 2 ∧
    ∃ frames, Conversation Ext.sample sampleEnv (readsOf s.log) (children s) frames ∧ wrotesOf s.log <+: frames ∧
      s.out <+: encodeAll frames := by
  obtain ⟨m, hrun, hpc, hin, hchild, hleft, hreads⟩ := run_pipelined
  obtain ⟨s, hrun', hover, htwo, hreads'⟩ := run_overlapping hpc hin hchild hleft
  have hall : run sampleEnv (init Ext.sample) (pipelinedActions ++ overlappingActions) = some s :=
    Lts.run_append.2 ⟨m, hrun, hrun'⟩
  have hcut : Lts.Meets (step sampleEnv) TimeoutAtWait (init Ext.sample) (pipelinedActions ++ overlappingActions) := by
    refine Lts.Meets.append (Lts.meets_of_forall fun a ha t heq => ?_) fun m' hm => ?_
    · subst heq
      simp [pipelinedActions, openingActions] at ha
    · rw [Option.some.inj (hm.symm.trans hrun)]
      refine ⟨fun _ => Or.inl hpc, fun s' _ => Lts.meets_of_forall fun a ha t heq => ?_⟩
      subst heq
      simp at ha
  obtain ⟨-, hconv⟩ := writes_conversation Ext.sample sampleEnv _ _ hall hcut
  exact ⟨_, s, hall, by rw [hreads', hreads]; rfl, hover, htwo, hconv⟩

end Sao.Session
