import Sao.Client.Plain
import Sao.Lib.Simulation
import Sao.System.Fidelity

/-!
# What the user is told is true

The two ends of one connection again, but now anything outside may fail: the streams of either end, the
standard streams of the client, the spawn, `child.wait()`; and the exec timeout may fire, though not in the
middle of a write.

| here | there |
| --- | --- |
| `TimeoutsAtWaits` | the one thing that is not allowed |
| `Account`         | what an exit code of the client says of the command |

* `Talk.fits` — every frame a session writes can be read.
* `plain_shows`, `plain_asks` — what a client shows and asks for, by the frames on its stream.
* `truthful` — at most one command is spawned, the one the user asked for; what is printed was written by it; the exit
  code is its own, or says that it was refused or timed out; and of what is printed the last flush loses no whole line.
-/

namespace Sao

/-! ## The session -/

namespace Session

open MsgType State

variable {X : Ext} {E : Env} {s : State X}

/-- What every command has at first, and keeps, and what its receiver does not matter for, the commands of every run
have. -/
theorem children_inv {Q : Child → Prop} (hspawn : ∀ argv, Q (Child.spawn argv))
    (hstep : ∀ c c' a, Q c → c.step a = some c' → Q c') (htold : ∀ c : Child, Q c ↔ Q (Child.told c)) {as : List Action}
    (h : run E (init X) as = some s) : ∀ c ∈ children s, Q c := by
  refine Lts.run_inv (fun s => ∀ c ∈ children s, Q c) (fun s a s' hi hs => ?_) (by simp [children, init]) h
  rcases children_step hs with ⟨argv, -, hcs, -⟩ | ⟨i, c, c', b, hc, hb, hcs, -⟩ | ⟨hcs, -⟩
  · intro d hd
    rw [hcs] at hd
    rcases List.mem_append.1 hd with hd | hd
    · exact hi d hd
    · exact List.mem_singleton.1 hd ▸ hspawn argv
  · intro d hd
    rw [hcs] at hd
    rcases List.mem_or_eq_of_mem_set hd with hd | rfl
    · exact hi d hd
    · exact hstep c d b (hi c (List.mem_of_getElem? hc)) hb
  · intro d hd
    have hm : Child.told d ∈ (children s').map Child.told := List.mem_map_of_mem hd
    rw [hcs, List.mem_map] at hm
    obtain ⟨e, he, hed⟩ := hm
    exact (htold d).2 (hed ▸ (htold e).1 (hi e he))

/-- What the reader tasks of a command have sent. -/
def SendsOk (c : Child) : Prop := ∀ ch ∈ c.sent, ch.Ok

theorem sendsOk_run {as : List Action} (h : run E (init X) as = some s) : ∀ c ∈ children s, SendsOk c := by
  refine children_inv (fun argv => nofun) (fun c c' a hc hs ch hch => ?_) (fun c => Iff.rfl) h
  obtain ⟨new, hsent, -, hok, -⟩ := Child.step_sends hs
  rw [hsent] at hch
  rcases List.mem_append.1 hch with hch | hch
  · exact hc ch hch
  · exact hok ch hch

variable {T : Prop} {keys : List (AuthorizedKey X)} {act : Activity} {reads frames : List Frame} {cs : List Child}

theorem streamFrames_taken_fits {c : Child} {taken : List StreamChunk} (hok : SendsOk c) (ht : taken <+: c.sent) :
    ∀ f ∈ streamFrames taken, f.Fits DEFAULT_MAX_PAYLOAD_LEN :=
  streamFrames_fits fun ch hch => hok ch (ht.subset hch)

theorem Answered.fits {reqs : List Frame} {blocks : List (List Frame)} (h : Answered X E T reqs cs blocks)
    (hok : ∀ c ∈ cs, SendsOk c) : ∀ f ∈ blocks.flatten, f.Fits DEFAULT_MAX_PAYLOAD_LEN := by
  induction h with
  | nil => nofun
  | denied h hr hg ih =>
    rw [List.flatten_append, List.flatten_singleton, List.forall_mem_append]
    exact ⟨ih hok, by simpa using hg⟩
  | ran h hr hc ih =>
    rw [List.forall_mem_append] at hok
    rw [List.flatten_append, List.flatten_singleton, List.forall_mem_append, List.forall_mem_append]
    refine ⟨ih hok.1, streamFrames_taken_fits (hok.2 _ (by simp)) hc.sent, ?_⟩
    simpa using exitFrame_fits _

theorem Greeted.fits {resp : Frame} {entry : AuthorizedKey X} (h : Greeted E keys resp entry) :
    ∀ f ∈ greeting E entry, f.Fits DEFAULT_MAX_PAYLOAD_LEN := by
  rintro f hf
  rcases List.mem_pair.1 hf with rfl | rfl
  · exact h.challenge
  · exact h.authOk

/-- **Every frame a session writes can be read.** -/
theorem Talk.fits (h : Talk E T keys act reads cs frames) (hok : ∀ c ∈ cs, SendsOk c) :
    ∀ f ∈ frames, f.Fits DEFAULT_MAX_PAYLOAD_LEN := by
  have hone : ∀ {f : Frame}, f.Fits DEFAULT_MAX_PAYLOAD_LEN → ∀ g ∈ [f], g.Fits DEFAULT_MAX_PAYLOAD_LEN := by
    intro f hf g hg
    exact List.mem_singleton.1 hg ▸ hf
  have hrun : ∀ {c : Child} {taken : List StreamChunk}, SendsOk c → Running c taken →
      ∀ f ∈ streamFrames taken, f.Fits DEFAULT_MAX_PAYLOAD_LEN :=
    fun hc hr => streamFrames_taken_fits hc ⟨_, hr.queue.symm⟩
  cases h with
  | opening => nofun
  | challenged hk hf => exact hone hf
  | heard hk hf hr => exact hone hf
  | refused hk hc hr hf => exact List.forall_mem_cons.2 ⟨hc, hone hf⟩
  | idle hg ha => exact List.forall_mem_append.2 ⟨hg.fits, ha.fits hok⟩
  | asked hg ha hr => exact List.forall_mem_append.2 ⟨hg.fits, ha.fits hok⟩
  | running hg ha hr hc =>
    rw [List.forall_mem_append] at hok
    exact List.forall_mem_append.2 ⟨List.forall_mem_append.2 ⟨hg.fits, ha.fits hok.1⟩, hrun (hok.2 _ (by simp)) hc⟩
  | waiting hg ha hr hc hd =>
    rw [List.forall_mem_append] at hok
    exact List.forall_mem_append.2 ⟨List.forall_mem_append.2 ⟨hg.fits, ha.fits hok.1⟩, hrun (hok.2 _ (by simp)) hc⟩
  | refusing hg ha hr hf =>
    exact List.forall_mem_append.2 ⟨List.forall_mem_append.2 ⟨hg.fits, ha.fits hok⟩, hone hf⟩

end Session

/-! ## The client -/

namespace ClientSession

open MsgType

variable {X : Ext} {E : Env}

theorem replies_out (v : View) (fs : List Frame) : (replies X v fs).out = v.out := by
  induction fs generalizing v with
  | nil => rfl
  | cons f fs ih =>
    rw [replies]
    split
    · split
      · rfl
      · rw [ih, View.writeStd]
        split <;> rfl
    · split
      · split <;> rfl
      · split
        · rfl
        · split <;> rfl

/-- What a client puts on the stream for these frames. -/
inductive Asks (X : Ext) (E : Env) (fs : List Frame) : List Frame → Prop where
  | none : Asks X E fs []
  | response {ch resp : Frame} {more : List Frame} (hfs : fs = ch :: more) (h : Responds X E ch resp) :
    Asks X E fs [resp]
  | request {ch resp : Frame} {more : List Frame} (hfs : fs = ch :: more) (h : Responds X E ch resp)
    (hq : (execShell E.shellLine).Fits DEFAULT_MAX_PAYLOAD_LEN) : Asks X E fs [resp, execShell E.shellLine]

theorem say_of_fits {f : Frame} (hf : f.Fits DEFAULT_MAX_PAYLOAD_LEN) (v : View) (k : View → View) :
    v.say f k = k { v with out := v.out ++ encode f } := by
  unfold View.say
  rw [encodeFrame_fits hf]

/-- **What a client asks.** -/
theorem plain_asks (X : Ext) (E : Env) (fs : List Frame) :
    ∃ gs, (plain X E fs).out = encodeAll gs ∧ Asks X E fs gs := by
  unfold plain
  cases hk : E.signingKey with
  | error e => exact ⟨[], rfl, .none⟩
  | ok sk =>
    cases fs with
    | nil => exact ⟨[], rfl, .none⟩
    | cons ch more =>
      dsimp only
      rw [challenge]
      split
      · exact ⟨[], rfl, .none⟩
      rename_i hmt
      split
      · exact ⟨[], rfl, .none⟩
      rename_i c hch
      split
      · exact ⟨[], rfl, .none⟩
      rename_i nonce hnonce
      rw [ne_eq, Decidable.not_not] at hmt
      have hresp : Responds X E ch (authResponse X sk nonce c.sessionId) :=
        ⟨sk, nonce, c.sessionId, hk, ⟨hmt, c, hch, hnonce, rfl⟩, rfl⟩
      rw [say_of_fits (authResponse_fits ..)]
      have hout : View.empty.out ++ encode (authResponse X sk nonce c.sessionId) =
          encodeAll [authResponse X sk nonce c.sessionId] := by simp [View.empty]
      cases more with
      | nil => exact ⟨_, hout, .response rfl hresp⟩
      | cons f more =>
        rw [result]
        split
        · exact ⟨_, hout, .response rfl hresp⟩
        split
        · exact ⟨_, hout, .response rfl hresp⟩
        split
        · by_cases hq : (execShell E.shellLine).Fits DEFAULT_MAX_PAYLOAD_LEN
          · rw [say_of_fits hq, replies_out]
            refine ⟨_, ?_, .request rfl hresp hq⟩
            simp [View.empty]
          · obtain ⟨len, he⟩ := encodeFrame_not_fits hq
            unfold View.say
            rw [he]
            exact ⟨_, hout, .response rfl hresp⟩
        · exact ⟨_, hout, .response rfl hresp⟩

/-- Nothing is shown, and the client has not exited. -/
structure View.Silent (v : View) : Prop where
  stdout : v.stdout = []
  stderr : v.stderr = []
  outcome : ∀ code, v.outcome ≠ some (.exit code)

theorem silent_mk (out : Bytes) : (View.mk out [] [] none).Silent := ⟨rfl, rfl, nofun⟩

theorem View.Silent.fail {v : View} (h : v.Silent) (text : Str) : (v.fail text).Silent :=
  ⟨h.stdout, h.stderr, fun code hc => by cases hc⟩

/-- **What a client shows**, it shows for the frames behind the first two. -/
theorem plain_shows (X : Ext) (E : Env) (fs : List Frame) :
    ∃ v : View, v.Silent ∧ (plain X E fs = v ∨ plain X E fs = replies X v (fs.drop 2)) := by
  unfold plain
  cases E.signingKey with
  | error e => exact ⟨_, (silent_mk []).fail _, Or.inl rfl⟩
  | ok sk =>
    cases fs with
    | nil => exact ⟨_, silent_mk [], Or.inl rfl⟩
    | cons ch more =>
      dsimp only
      rw [challenge]
      split
      · exact ⟨_, (silent_mk []).fail _, Or.inl rfl⟩
      split
      · exact ⟨_, (silent_mk []).fail _, Or.inl rfl⟩
      split
      · exact ⟨_, (silent_mk []).fail _, Or.inl rfl⟩
      rw [say_of_fits (authResponse_fits ..)]
      cases more with
      | nil => exact ⟨_, silent_mk _, Or.inl rfl⟩
      | cons f more =>
        rw [result]
        split
        · exact ⟨_, (silent_mk _).fail _, Or.inl rfl⟩
        split
        · exact ⟨_, (silent_mk _).fail _, Or.inl rfl⟩
        split
        · unfold View.say
          split
          · exact ⟨_, silent_mk _, Or.inr rfl⟩
          · exact ⟨_, (silent_mk _).fail _, Or.inl rfl⟩
        · exact ⟨_, (silent_mk _).fail _, Or.inl rfl⟩

/-- The output of a command is written as it was read. -/
theorem replies_streamFrames (hX : X.Lawful) (v : View) (cs : List StreamChunk) (fs : List Frame) :
    replies X v (Session.streamFrames cs ++ fs) = replies X { v with
      stdout := v.stdout ++ Child.dataOf .out cs
      stderr := v.stderr ++ Child.dataOf .err cs } fs := by
  induction cs generalizing v with
  | nil => simp
  | cons ch cs ih =>
    rw [Session.streamFrames_cons, List.cons_append, replies, if_pos (streams_chunkFrame hX ch).1,
      streamBytes_chunkFrame hX]
    dsimp only
    rw [ih, chunkFrame_streamType]
    have hdata : ∀ fd, Child.dataOf fd (ch :: cs) = (if ch.fd = fd then ch.data else []) ++ Child.dataOf fd cs :=
      fun fd => List.flatMap_cons
    congr 1
    rw [hdata, hdata]
    cases ch.fd with
    | out => simp [View.writeStd, streamType, STREAM_STDOUT, STREAM_STDERR]
    | err => simp [View.writeStd, streamType, STREAM_STDERR]

theorem replies_denied (v : View) (msg : Str) : replies X v [jsonFrame POLICY_DENIED (policyDeniedJson msg)] =
    (v.eprintln (Bytes.utf8 (X.fromUtf8Lossy (Json.toVec (policyDeniedJson msg))))).exit 126 := rfl

theorem replies_exitFrame (hX : X.Lawful) (v : View) (code : Int32) :
    replies X v [Session.exitFrame code] = v.exit code := by
  have hmt : (Session.exitFrame code).msgType = EXEC_EXIT := rfl
  rw [replies, hmt, if_neg (by decide), if_pos rfl, Session.exitFrame_payload, hX.exitCode]
  show v.exit code.toInt64.toInt32 = v.exit code
  rw [Int32.toInt32_toInt64]

theorem Asks.fits {fs gs : List Frame} (h : Asks X E fs gs) : ∀ g ∈ gs, g.Fits DEFAULT_MAX_PAYLOAD_LEN := by
  have hresp : ∀ {ch resp : Frame}, Responds X E ch resp → resp.Fits DEFAULT_MAX_PAYLOAD_LEN := by
    rintro ch resp ⟨sk, nonce, sid, -, -, rfl⟩
    exact authResponse_fits ..
  cases h with
  | none => nofun
  | response hfs h =>
    intro g hg
    rw [List.mem_singleton.1 hg]
    exact hresp h
  | request hfs h hq =>
    intro g hg
    rcases List.mem_pair.1 hg with rfl | rfl
    · exact hresp h
    · exact hq

end ClientSession

/-! ## Both -/

namespace System

open MsgType Session

variable {X : Ext} {E : Session.Env} {C : ClientSession.Env} {s s' : Joint X}

/-- A timeout fires only where `exec` waits for a chunk or for the process. -/
def TimeoutsAtWaits (s : Joint X) : Move → Prop
  | .server a => TimeoutAtWait s.server a
  | _ => True

/-- What has arrived was sent. -/
structure Piped (s : Joint X) : Prop where
  toClient : s.client.received <+: s.server.out
  toServer : s.server.received <+: s.client.out

theorem piped_step {m : Move} (h : Piped s) (hs : s.step E C m = some s') : Piped s' := by
  cases Joint.step_cases hs with
  | server a t ha hstep =>
    have hk := Session.keeps_step ha hstep
    refine ⟨h.toClient.trans hk.out, ?_⟩
    show t.received <+: s.client.out
    exact hk.received ▸ h.toServer
  | client a u ha hstep =>
    have hk := ClientSession.keeps_step ha hstep
    refine ⟨?_, h.toServer.trans hk.out⟩
    show u.received <+: s.server.out
    exact hk.received ▸ h.toClient
  | toServer n t h0 hn hstep =>
    cases Session.step_cases hstep with
    | clientSend b he => exact ⟨h.toClient, prefix_arrived h.toServer n⟩
  | toClient n u h0 hn hstep =>
    simp only [ClientSession.step] at hstep
    split at hstep
    · cases hstep
    · cases hstep
      exact ⟨prefix_arrived h.toClient n, h.toServer⟩
  | closeServer r hpc hall heof => exact ⟨h.toClient, h.toServer⟩
  | closeClient r hpc hall heof => exact ⟨h.toClient, h.toServer⟩

/-- The session runs by itself. -/
theorem server_run {ms : List Move} (hcut : Lts.Meets (Joint.step E C) TimeoutsAtWaits (Joint.init : Joint X) ms)
    (hrun : Joint.run E C Joint.init ms = some s) : ∃ as, Session.run E (Session.init X) as = some s.server ∧
      Lts.Meets (Session.step E) TimeoutAtWait (Session.init X) as := by
  refine Lts.run_view (fun s : Joint X => s.server) (fun s m s' hm hs => ?_) hcut hrun
  cases Joint.step_cases hs with
  | server a t ha hstep => exact Or.inr ⟨a, hm, hstep⟩
  | client a u ha hstep => exact Or.inl rfl
  | toServer n t h0 hn hstep => exact Or.inr ⟨.clientSend (s.toServer.take n), nofun, hstep⟩
  | toClient n u h0 hn hstep => exact Or.inl rfl
  | closeServer r hpc hall heof => exact Or.inr ⟨.clientClose, nofun, rfl⟩
  | closeClient r hpc hall heof => exact Or.inl rfl

/-- So does the client. -/
theorem client_run {ms : List Move} (hrun : Joint.run E C Joint.init ms = some s) :
    ∃ as, ClientSession.run X C ClientSession.init as = some s.client := by
  have hall : Lts.Meets (Joint.step E C) (fun _ _ => True) (Joint.init : Joint X) ms :=
    Lts.meets_of_forall fun _ _ _ => trivial
  have hpart : ∀ (s : Joint X) (m : Move) (s' : Joint X), True → Joint.step E C s m = some s' →
      s'.client = s.client ∨ ∃ a, True ∧ ClientSession.step X C s.client a = some s'.client := fun s m s' _ hs => by
    cases Joint.step_cases hs with
    | server a t ha hstep => exact Or.inl rfl
    | client a u ha hstep => exact Or.inr ⟨a, trivial, hstep⟩
    | toServer n t h0 hn hstep => exact Or.inl rfl
    | toClient n u h0 hn hstep => exact Or.inr ⟨_, trivial, hstep⟩
    | closeServer r hpc hall heof => exact Or.inl rfl
    | closeClient r hpc hall heof => exact Or.inr ⟨.serverClose, trivial, rfl⟩
  obtain ⟨as, has, -⟩ : ∃ as, Lts.run (ClientSession.step X C) ClientSession.init as = some s.client ∧
      Lts.Meets (ClientSession.step X C) (fun _ _ => True) ClientSession.init as :=
    Lts.run_view (fun s : Joint X => s.client) hpart hall hrun
  exact ⟨as, has⟩

/-! ### What the session has said -/

/-- The key of the client is on the key file, and has signed the challenge of this session. -/
def Listed (X : Ext) (E : Session.Env) (C : ClientSession.Env) : Prop :=
  ∃ sk keys entry ar, C.signingKey = .ok sk ∧ loadAuthorizedKeys X E.authorizedKeys = .ok keys ∧
    Accepted E keys (response X E sk) entry ar

/-- The command is the one the client has asked for, it is permitted, and so is the client. -/
structure Asked (X : Ext) (E : Session.Env) (C : ClientSession.Env) (c : Child) : Prop where
  listed : Listed X E C
  permitted : checkShell X E.config.policy C.shellLine = .ok ()
  argv : c.argv = E.config.shellArgv ++ [C.shellLine]

/-- What a session has spawned and said that has heard no more than one client. -/
inductive Said (X : Ext) (E : Session.Env) (C : ClientSession.Env) : List Child → List Frame → Prop where
  | brief {frames : List Frame} (h : frames.length ≤ 2) : Said X E C [] frames
  | denied (entry : AuthorizedKey X) (msg : Str)
      (hc : checkShell X E.config.policy C.shellLine = .error (.policyDenied msg)) :
      Said X E C [] (greeting E entry ++ [jsonFrame POLICY_DENIED (policyDeniedJson msg)])
  | running (entry : AuthorizedKey X) {c : Child} {taken : List StreamChunk} (hc : Asked X E C c)
      (ht : Running c taken) : Said X E C [c] (greeting E entry ++ streamFrames taken)
  | ran (entry : AuthorizedKey X) {c : Child} {taken : List StreamChunk} {code : Int32} (hc : Asked X E C c)
      (ht : Reported True c taken code) : Said X E C [c] (greeting E entry ++ (streamFrames taken ++ [exitFrame code]))

/-- The request of a client is denied, or no argument vector can be made of it, or it is run. -/
theorem reaction_shellRequest (hX : X.Lawful) :
    (∃ msg, checkShell X E.config.policy C.shellLine = .error (.policyDenied msg) ∧
      reaction X E (shellRequest C) = .deny (jsonFrame POLICY_DENIED (policyDeniedJson msg))) ∨
    checkShell X E.config.policy C.shellLine = .ok () ∧ reaction X E (shellRequest C) =
      if E.config.shellArgv.length < 2 then .fail "shell_argv must have at least [program, -lc]".toList
      else .run (E.config.shellArgv ++ [C.shellLine]) := by
  have hmt : (shellRequest C).msgType = EXEC_SHELL := rfl
  have hdec : X.execShell (shellRequest C).payload = .ok C.shellLine := hX.execShell _
  unfold reaction
  simp only [if_pos hmt, hdec]
  cases hc : checkShell X E.config.policy C.shellLine with
  | error e =>
    obtain ⟨pat, -, -, rfl⟩ := checkShell_error hc
    exact Or.inl ⟨_, rfl, rfl⟩
  | ok u => exact Or.inr ⟨rfl, rfl⟩

theorem reaction_shellRequest_deny (hX : X.Lawful) {g : Frame} (h : reaction X E (shellRequest C) = .deny g) :
    ∃ msg, checkShell X E.config.policy C.shellLine = .error (.policyDenied msg) ∧
      g = jsonFrame POLICY_DENIED (policyDeniedJson msg) := by
  rcases reaction_shellRequest hX with ⟨msg, hc, hr⟩ | ⟨-, hr⟩
  · rw [hr] at h
    exact ⟨msg, hc, (Reaction.deny.inj h).symm⟩
  · rw [hr] at h
    split at h <;> cases h

theorem reaction_shellRequest_run (hX : X.Lawful) {argv : List Str} (h : reaction X E (shellRequest C) = .run argv) :
    checkShell X E.config.policy C.shellLine = .ok () ∧ argv = E.config.shellArgv ++ [C.shellLine] := by
  rcases reaction_shellRequest hX with ⟨msg, -, hr⟩ | ⟨hc, hr⟩
  · rw [hr] at h
    cases h
  · rw [hr] at h
    split at h
    · cases h
    · exact ⟨hc, (Reaction.run.inj h).symm⟩

variable {keys : List (AuthorizedKey X)} {act : Activity} {reads frames : List Frame} {cs : List Child}

/-- **The conversation with one client.** -/
theorem said_of_talk (hX : X.Lawful) {sk : ByteArr 32} (hsk : C.signingKey = .ok sk)
    (h : Talk E True keys act reads cs frames) (hreads : reads <+: [response X E sk, shellRequest C]) :
    Said X E C cs frames := by
  have hlisted : ∀ {entry : AuthorizedKey X}, Greeted E keys (response X E sk) entry → Listed X E C := by
    intro entry hg
    obtain ⟨sig, hacc⟩ := hg.accepted
    unfold authReaction at hacc
    split at hacc
    · cases hacc
    · cases hacc
    · cases hacc
    · rename_i hauth
      obtain ⟨ar, hacc', -⟩ := authenticate_ok_iff.1 hauth
      exact ⟨sk, keys, _, ar, hsk, hg.loaded, hacc'⟩
  have hasked : ∀ {entry : AuthorizedKey X} {c : Child}, Greeted E keys (response X E sk) entry →
      reaction X E (shellRequest C) = .run c.argv → Asked X E C c := by
    intro entry c hg hr
    obtain ⟨hc, hargv⟩ := reaction_shellRequest_run hX hr
    exact ⟨hlisted hg, hc, hargv⟩
  cases h with
  | opening => exact .brief (by simp)
  | challenged hk hf => exact .brief (by simp)
  | heard hk hf hr => exact .brief (by simp)
  | refused hk hc hr hf => exact .brief (by simp)
  | idle hg ha =>
    obtain ⟨rfl, rfl | rfl⟩ := prefix_pair hreads
    · obtain ⟨rfl, rfl⟩ := ha.of_nil
      exact .brief (by simp [greeting])
    · rcases ha.of_single with ⟨g, hr, rfl, rfl⟩ | ⟨c, taken, code, hr, hc, rfl, rfl⟩
      · obtain ⟨msg, hc, rfl⟩ := reaction_shellRequest_deny hX hr
        rw [List.flatten_singleton]
        exact .denied _ msg hc
      · rw [List.flatten_singleton]
        exact .ran _ (hasked hg hr) hc
  | asked hg ha hr =>
    obtain ⟨rfl, rfl, rfl⟩ := prefix_pair_snoc hreads
    obtain ⟨rfl, rfl⟩ := ha.of_nil
    exact .brief (by simp [greeting])
  | running hg ha hr hc =>
    obtain ⟨rfl, rfl, rfl⟩ := prefix_pair_snoc hreads
    obtain ⟨rfl, rfl⟩ := ha.of_nil
    rw [List.flatten_nil, List.append_nil]
    exact .running _ (hasked hg hr) hc
  | waiting hg ha hr hc hd =>
    obtain ⟨rfl, rfl, rfl⟩ := prefix_pair_snoc hreads
    obtain ⟨rfl, rfl⟩ := ha.of_nil
    rw [List.flatten_nil, List.append_nil]
    exact .running _ (hasked hg hr) hc
  | refusing hg ha hr hf =>
    -- a request is denied or run
    obtain ⟨-, rfl, -⟩ := prefix_pair_snoc hreads
    rcases reaction_shellRequest hX with ⟨msg, -, hr'⟩ | ⟨-, hr'⟩
    · rw [hr'] at hr
      cases hr
    · rw [hr'] at hr
      split at hr <;> cases hr

/-! ### What the client makes of it -/

/-- What a client that exits with this code has shown of the commands of its session. -/
inductive Account (X : Ext) (E : Session.Env) (C : ClientSession.Env) : List Child → Int32 → Bytes → Bytes → Prop where
  | denied (msg : Str) (hc : checkShell X E.config.policy C.shellLine = .error (.policyDenied msg)) :
    Account X E C [] 126 [] (Bytes.utf8 (X.fromUtf8Lossy (Json.toVec (policyDeniedJson msg))) ++ [0x0A])
  /-- All its output has been read, and it has exited. -/
  | finished {c : Child} {st : Option Int32} (hgone : c.sendersGone) (hst : c.status = some st) :
    Account X E C [c] (st.getD (-1)) (Child.dataOf .out c.sent) (Child.dataOf .err c.sent)
  | timedOut {c : Child} {taken : List StreamChunk} (ht : taken <+: c.sent) :
    Account X E C [c] 124 (Child.dataOf .out taken) (Child.dataOf .err taken)

/-- What a client may show of the commands of its session. -/
structure Shows (X : Ext) (E : Session.Env) (C : ClientSession.Env) (cs : List Child) (v : ClientSession.View) :
    Prop where
  silent : cs = [] → v.stdout = []
  wrote : ∀ c ∈ cs, v.stdout <+: c.stdout.wrote ∧ v.stderr <+: c.stderr.wrote
  exits : ∀ code, v.outcome = some (.exit code) → Account X E C cs code v.stdout v.stderr

theorem shows_silent {v : ClientSession.View} (h : v.Silent) : Shows X E C cs v :=
  ⟨fun _ => h.stdout, fun _ _ => ⟨h.stdout ▸ List.nil_prefix, h.stderr ▸ List.nil_prefix⟩,
    fun code hc => absurd hc (h.outcome code)⟩

theorem account_of_reported {c : Child} {taken : List StreamChunk} {code : Int32} (h : Reported True c taken code) :
    Account X E C [c] code (Child.dataOf .out taken) (Child.dataOf .err taken) := by
  rcases h.exit with ⟨-, rfl⟩ | ⟨hgone, rfl, st, hst, rfl⟩
  · exact .timedOut h.sent
  · exact .finished hgone hst

/-- Some of a command's output is shown, and nothing else. -/
theorem shows_output (hX : X.Lawful) {c : Child} {taken : List StreamChunk} (hf : c.Faithful) (ht : taken <+: c.sent)
    {v : ClientSession.View} (hv : v.Silent) {fs : List Frame} (hfs : fs <+: streamFrames taken) :
    Shows X E C [c] (ClientSession.replies X v fs) := by
  obtain ⟨shown, hshown, rfl⟩ := List.prefix_map_iff.1 hfs
  have hreplies := ClientSession.replies_streamFrames hX v shown []
  rw [List.append_nil] at hreplies
  rw [show shown.map chunkFrame = streamFrames shown from rfl, hreplies, ClientSession.replies, hv.stdout, hv.stderr,
    List.nil_append, List.nil_append]
  have hdata : ∀ fd, Child.dataOf fd shown <+: (c.pipe fd).wrote := own_data hf (hshown.trans ht)
  refine ⟨fun h => absurd h (List.cons_ne_nil _ _), fun d hd => ?_, fun code hc => absurd hc (hv.outcome code)⟩
  rw [List.mem_singleton.1 hd]
  exact ⟨hdata .out, hdata .err⟩

/-- **What is shown of a conversation**, however much of it has arrived. -/
theorem Said.shows (hX : X.Lawful) (h : Said X E C cs frames) {fs : List Frame} (hfs : fs <+: frames)
    {v : ClientSession.View} (hv : v.Silent) : Shows X E C cs (ClientSession.replies X v (fs.drop 2)) := by
  have hrest : fs.drop 2 <+: frames.drop 2 := hfs.drop 2
  cases h with
  | brief hlen =>
    rw [List.drop_eq_nil_of_le hlen, List.prefix_nil] at hrest
    rw [hrest]
    exact shows_silent hv
  | denied entry msg hc =>
    rcases List.prefix_cons_iff.1 hrest with hnil | ⟨t, hcons, ht⟩
    · rw [hnil]
      exact shows_silent hv
    · rw [hcons, List.prefix_nil.1 ht]
      rw [ClientSession.replies_denied]
      refine ⟨fun _ => hv.stdout, nofun, fun code hexit => ?_⟩
      cases hexit
      show Account X E C [] 126 v.stdout (v.stderr ++ _ ++ [0x0A])
      rw [hv.stdout, hv.stderr, List.nil_append]
      exact .denied msg hc
  | running entry hc ht => exact shows_output hX ht.faithful ⟨_, ht.queue.symm⟩ hv hrest
  | @ran entry c taken code hc ht =>
    rcases List.prefix_concat_iff.1 hrest with hall | hpart
    · rw [hall, ClientSession.replies_streamFrames hX, ClientSession.replies_exitFrame hX, hv.stdout, hv.stderr,
        List.nil_append, List.nil_append]
      have hdata : ∀ fd, Child.dataOf fd taken <+: (c.pipe fd).wrote := own_data ht.faithful ht.sent
      refine ⟨fun h => absurd h (List.cons_ne_nil _ _), fun d hd => ?_, fun code' hexit => ?_⟩
      · rw [List.mem_singleton.1 hd]
        exact ⟨hdata .out, hdata .err⟩
      · cases hexit
        exact account_of_reported ht
    · exact shows_output hX ht.faithful ht.sent hv hpart

theorem Shows.begins {v w : ClientSession.View} (h : Shows X E C cs w) (hv : v.Begins w)
    (hexit : ∀ code, v.outcome = some (.exit code) → v = w) : Shows X E C cs v := by
  refine ⟨fun hcs => ?_, fun c hc => ⟨hv.stdout.trans (h.wrote c hc).1, hv.stderr.trans (h.wrote c hc).2⟩,
    fun code hcode => ?_⟩
  · have hout := hv.stdout
    rw [h.silent hcs] at hout
    exact List.prefix_nil.1 hout
  · have hvw := hexit code hcode
    rw [hvw] at hcode ⊢
    exact h.exits code hcode

/-! ### Every run -/

/-- **What the user is told of a run is true.** -/
structure Truthful (E : Session.Env) (C : ClientSession.Env) (s : Joint X) : Prop where
  once : (children s.server).length ≤ 1
  asked : ∀ c ∈ children s.server, Asked X E C c
  shows : Shows X E C (children s.server) s.client.seen
  /-- What reaches the standard output, whatever becomes of the last flush. -/
  file : ∀ c ∈ children s.server, ∀ n, s.client.file n <+: c.stdout.wrote
  lost : ∀ n, ∃ lost, s.client.stdout = s.client.file n ++ lost ∧ lost.length ≤ ClientSession.STDOUT_CAPACITY ∧
    0x0A ∉ lost

theorem Said.once (h : Said X E C cs frames) : cs.length ≤ 1 ∧ ∀ c ∈ cs, Asked X E C c := by
  cases h with
  | brief hlen => exact ⟨Nat.zero_le _, nofun⟩
  | denied entry msg hc => exact ⟨Nat.zero_le _, nofun⟩
  | running entry hc ht => exact ⟨Nat.le_refl _, fun d hd => List.mem_singleton.1 hd ▸ hc⟩
  | ran entry hc ht => exact ⟨Nat.le_refl _, fun d hd => List.mem_singleton.1 hd ▸ hc⟩

theorem allows_of_timeoutAtWait {t : Session.State X} {a : Session.Action} (h : TimeoutAtWait t a) :
    anything.Allows t a := by
  cases a with
  | timeout => exact ⟨trivial, h rfl⟩
  | _ => trivial

/-- The first frame of a conversation. -/
theorem talk_head (h : Talk E True keys act reads cs frames) {f : Frame} {more : List Frame} (hf : frames = f :: more) :
    f = Session.challenge E := by
  cases h <;> first | exact (List.cons.inj hf).1.symm | cases hf

theorem said_of_nil (h : Talk E True keys act [] cs frames) : Said X E C cs frames := by
  cases h with
  | opening => exact .brief (by simp)
  | challenged hk hf => exact .brief (by simp)

theorem Shows.close {v : ClientSession.View} (h : Shows X E C cs v) (e : ProtocolError) (eof : Bool) :
    Shows X E C cs (v.close e eof) := by
  unfold ClientSession.View.close
  split
  · exact ⟨h.silent, h.wrote, fun code hc => by cases hc⟩
  · exact h

/-- What has been asked of a session by what its client has received of it. -/
theorem said_of_asks (hX : X.Lawful) (h : Talk E True keys act reads cs frames) {fs gs : List Frame}
    (hfs : fs <+: frames) (hasks : ClientSession.Asks X C fs gs) (hreads : reads <+: gs) : Said X E C cs frames := by
  have hresp : ∀ {ch resp : Frame} {more : List Frame}, fs = ch :: more → ClientSession.Responds X C ch resp →
      ∃ sk, C.signingKey = .ok sk ∧ resp = response X E sk := by
    rintro ch resp more rfl ⟨sk, nonce, sid, hsk, hch, rfl⟩
    obtain ⟨rest, rfl⟩ := hfs
    obtain rfl := talk_head h rfl
    obtain ⟨rfl, rfl⟩ := hch.unique (ClientSession.challenges_challenge hX E)
    exact ⟨sk, hsk, rfl⟩
  cases hasks with
  | none =>
    rw [List.prefix_nil.1 hreads] at h
    exact said_of_nil h
  | response hfs' hr =>
    obtain ⟨sk, hsk, rfl⟩ := hresp hfs' hr
    exact said_of_talk hX hsk h (hreads.trans ⟨[shellRequest C], rfl⟩)
  | request hfs' hr hq =>
    obtain ⟨sk, hsk, rfl⟩ := hresp hfs' hr
    exact said_of_talk hX hsk h hreads

/-- **What the user is told is true**, in every run of a client and a session in which no timeout fires in the middle
of a write, whatever else fails: at most one command is spawned, the permitted request of a client on the key file;
the client has written a beginning of what the command wrote; if it exits, with what code and after how much
of the output is the command's own doing, or the request was denied, or it timed out; and what it has written is on its
standard output, but for the end of a line where the last flush fails. -/
theorem truthful (hX : X.Lawful) {ms : List Move}
    (hcut : Lts.Meets (Joint.step E C) TimeoutsAtWaits (Joint.init : Joint X) ms)
    (hrun : Joint.run E C Joint.init ms = some s) : Truthful E C s := by
  obtain ⟨as, hserver, hwaits⟩ := server_run hcut hrun
  obtain ⟨bs, hclient⟩ := client_run hrun
  obtain ⟨act, frames, htalk, hst⟩ := told_run (hwaits.mono fun _ _ => allows_of_timeoutAtWait) hserver
  have hpiped : Piped s := Lts.run_inv Piped (fun _ _ _ hi hs => piped_step hi hs)
    ⟨List.nil_prefix, List.nil_prefix⟩ hrun
  -- what has arrived at the client are frames of the conversation
  obtain ⟨hsplit, hvalid, -⟩ := readAll_spec DEFAULT_MAX_PAYLOAD_LEN s.client.received
  have harrived := hpiped.toClient.trans hst.prefixes.2
  rw [hsplit] at harrived
  obtain ⟨later, hframes, -⟩ := prefix_frames hvalid (htalk.fits (sendsOk_run hserver)) harrived
  have hfs : (readAll DEFAULT_MAX_PAYLOAD_LEN s.client.received).1 <+: frames := ⟨later, hframes.symm⟩
  -- what has arrived at the session is what the client asks
  obtain ⟨hbegins, hexit⟩ := ClientSession.run_begins hclient
  obtain ⟨gs, hout, hasks⟩ := ClientSession.plain_asks X C (readAll DEFAULT_MAX_PAYLOAD_LEN s.client.received).1
  have hheard : s.server.received <+: encodeAll gs := by
    refine hpiped.toServer.trans (hbegins.out.trans ?_)
    rw [← hout, ClientSession.plainOn]
    unfold ClientSession.View.close
    split <;> exact List.prefix_refl _
  have hreads := (hears_of_inv (inv_run hserver)).reads_isPrefix ⟨List.append_nil _, hasks.fits⟩ hheard
  have hsaid := said_of_asks hX htalk hfs hasks hreads
  obtain ⟨v, hv, hplain⟩ := ClientSession.plain_shows X C (readAll DEFAULT_MAX_PAYLOAD_LEN s.client.received).1
  have hshows : Shows X E C (children s.server) (ClientSession.plainOn X C s.client.received s.client.eof) := by
    refine Shows.close ?_ _ _
    rcases hplain with hplain | hplain <;> rw [hplain]
    · exact shows_silent hv
    · exact hsaid.shows hX hfs hv
  have hseen : Shows X E C (children s.server) s.client.seen := by
    refine hshows.begins hbegins fun code hcode => ?_
    have hpc : s.client.pc = .done (.exit code) := by
      simp only [ClientSession.State.seen] at hcode
      split at hcode
      · rename_i r hpc
        rw [hpc, Option.some.inj hcode]
      · cases hcode
    exact (hexit code hpc).symm
  have hfile : ∀ n, s.client.file n <+: s.client.stdout := fun n => LineWriter.passed_isPrefix _ _ n
  exact ⟨hsaid.once.1, hsaid.once.2, hseen, fun c hc n => (hfile n).trans (hseen.wrote c hc).1,
    ClientSession.file_run hclient⟩

theorem smooth_timeoutsAtWaits {P : Program} {m : Move} (h : Joint.Smooth P s m) : TimeoutsAtWaits s m := by
  cases m with
  | server a =>
    rintro rfl
    exact h.elim
  | _ => trivial

/-- The sample client runs until it exits. -/
theorem truthful_sample : ∃ (s : Joint Ext.sample) (code : Int32), s.client.pc = .done (.exit code) ∧
    Truthful provisionedEnv sampleClient s := by
  obtain ⟨ms, s, code, hrun, hsm, hexit⟩ := run_to_exit ready_sample sampleProgram
  exact ⟨s, code, hexit, truthful lawful_sample (hsm.mono fun _ _ => smooth_timeoutsAtWaits) hrun⟩

end System

end Sao
