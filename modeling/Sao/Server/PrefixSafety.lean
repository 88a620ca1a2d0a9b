import Sao.Server.Grammar
import Sao.Server.Opening

/-!
# Cutting a connection

A session whose commands behave as given is a function of the frames it reads: `account` computes
what it writes and spawns. A session that reads less says and does a prefix of it.

* `talk_account` — a conversation under way has said at most what the account of its frames says, and
  all of it where it ended.
* `cut_session` — on a prefix of the client's stream a session spawns a prefix of the commands and
  writes a prefix of the frames.
-/

namespace Sao.Session

open MsgType State

variable {X : Ext} {E : Env} {s s' : State X}

/-! ## Behaviour of the commands -/

/-- What a command does: whether it can be spawned, what its reader tasks send, in this order, and
what `child.wait()` returns. -/
structure Behaviour where
  spawn : Except Str Unit
  chunks : List StreamChunk
  wait : Except Str (Option Int32)

/-- So far, the command behaves as `b` says. -/
def ChildFollows (b : Behaviour) (c : Child) : Prop :=
  c.sent <+: b.chunks ∧ (c.sendersGone → c.sent = b.chunks) ∧ ∀ st, c.status = some st → b.wait = .ok st

/-- The commands behave as `B` says of each by its number, and none is timed out. -/
def Follows (B : Nat → Behaviour) (io : Prop) (s : State X) : Action → Prop
  | .timeout => False
  | .ioError _ => io
  | .spawnOk => (B (children s).length).spawn = .ok ()
  | .spawnErr e => (B (children s).length).spawn = .error e
  | .waitErr e => (B ((children s).length - 1)).wait = .error e
  | .child a => ∀ c c', s.child = some c → c.step a = some c' → ChildFollows (B ((children s).length - 1)) c'
  | .leftover i a => ∀ c c', s.leftover[i]? = some c → c.step a = some c' → ChildFollows (B i) c'
  | _ => True

variable {B : Nat → Behaviour} {io : Prop}

/-- All commands behave as `B` says. -/
def AllFollow (B : Nat → Behaviour) (cs : List Child) : Prop :=
  ∀ i c, cs[i]? = some c → (B i).spawn = .ok () ∧ ChildFollows (B i) c

theorem AllFollow.init {cs : List Child} {c : Child} (h : AllFollow B (cs ++ [c])) : AllFollow B cs := by
  intro i d hd
  refine h i d ?_
  rw [List.getElem?_append_left (List.getElem?_eq_some_iff.1 hd).1]
  exact hd

theorem AllFollow.last {cs : List Child} {c : Child} (h : AllFollow B (cs ++ [c])) :
    (B cs.length).spawn = .ok () ∧ ChildFollows (B cs.length) c := h _ _ (by simp)

/-- The commands spawned behave as `B` says, and the log has them all. -/
structure ChildrenFollow (B : Nat → Behaviour) (s : State X) : Prop where
  each : AllFollow B (children s)
  spawns : spawnsOf s.log = (children s).map Child.argv

/-- The part of a command's record that tells its behaviour. -/
def Child.told (c : Child) : Child := { c with queue := [], rx := true }

theorem children_told_finish (s : State X) (r : Except Str Unit) :
    (children (s.finish r)).map Child.told = (children s).map Child.told := by
  unfold children State.finish State.dropRx
  cases s.child <;> simp [Child.told]

theorem children_told_beginWrite (s : State X) (f : Frame) (k : Cont) :
    (children (s.beginWrite f k)).map Child.told = (children s).map Child.told := by
  rcases beginWrite_cases s f k with ⟨-, h⟩ | ⟨e, h⟩
  · rw [h]
    rfl
  · rw [h, children_told_finish]

/-- **What a step does to the commands**: one is spawned, or one takes a step, or they only lose
their receivers or what was received. -/
theorem children_step {a : Action} (h : step E s a = some s') :
    (∃ argv, a = .spawnOk ∧ children s' = children s ++ [Child.spawn argv] ∧
      spawnsOf s'.log = spawnsOf s.log ++ [argv]) ∨
    (∃ i c c' b, (children s)[i]? = some c ∧ c.step b = some c' ∧ children s' = (children s).set i c' ∧
      s'.log = s.log ∧
      ((a = .child b ∧ s.child = some c ∧ i = (children s).length - 1) ∨ (a = .leftover i b ∧ s.leftover[i]? = some c))) ∨
    ((children s').map Child.told = (children s).map Child.told ∧ spawnsOf s'.log = spawnsOf s.log) := by
  cases step_cases h with
  | clientSend b he => exact Or.inr (Or.inr ⟨rfl, rfl⟩)
  | clientClose => exact Or.inr (Or.inr ⟨rfl, rfl⟩)
  | child b c c' hc hs =>
    have hcs : children s = s.leftover ++ [c] := by rw [children, hc]; rfl
    have hlen : (children s).length - 1 = s.leftover.length := by rw [hcs]; simp
    refine Or.inr (Or.inl ⟨(children s).length - 1, c, c', b, ?_, hs, ?_, rfl, Or.inl ⟨rfl, hc, rfl⟩⟩)
    · rw [hlen, hcs]
      simp
    · rw [hlen, hcs, List.set_append_right _ _ (Nat.le_refl _), Nat.sub_self]
      rfl
  | leftover i b c c' hc hs =>
    have hi : i < s.leftover.length := (List.getElem?_eq_some_iff.1 hc).1
    refine Or.inr (Or.inl ⟨i, c, c', b, ?_, hs, ?_, rfl, Or.inr ⟨rfl, hc⟩⟩)
    · rw [children, List.getElem?_append_left hi]
      exact hc
    · rw [children, children, List.set_append_left _ _ hi]
  | start hpc =>
    right; right
    unfold Session.start
    split
    · exact ⟨children_told_finish _ _, rfl⟩
    · exact ⟨children_told_beginWrite _ _ _, by rw [beginWrite_log]⟩
  | readAuth f r hpc hr =>
    right; right
    rcases handleAuth_cases E ({ s with inbuf := r }.emit (.read f)) f with ⟨entry, ar, -, he⟩ | ⟨g, he⟩ | ⟨r', he⟩
    · rw [he]
      exact ⟨children_told_beginWrite _ _ _, by simp⟩
    · rw [he]
      exact ⟨children_told_beginWrite _ _ _, by simp⟩
    · rw [he]
      exact ⟨children_told_finish _ _, by simp⟩
  | readServe f r hpc hr =>
    right; right
    refine ⟨?_, by rw [handleFrame_log]; simp⟩
    rcases handleFrame_cases E ({ s with inbuf := r }.emit (.read f)) f with ⟨shell, -, -, he⟩ | ⟨g, k, -, he⟩ | ⟨r', he⟩
    · rw [he]
      rfl
    · rw [he]
      exact children_told_beginWrite _ _ _
    · rw [he]
      exact children_told_finish _ _
  | readFail r e hpc hr he => exact Or.inr (Or.inr ⟨children_told_finish _ _, rfl⟩)
  | put n f rest k hpc h0 hn => exact Or.inr (Or.inr ⟨rfl, rfl⟩)
  | flushed f k hpc =>
    right; right
    have hdrop : ∀ t : State X, (children t.dropRx).map Child.told = (children t).map Child.told :=
      fun t => children_told_finish t (.ok ())
    cases k with
    | finish => exact ⟨children_told_finish _ _, by simp [afterWrite]⟩
    | execEnd => exact ⟨hdrop (s.emit (.wrote f)), by simp [afterWrite, State.dropRx]⟩
    | timedOut => exact ⟨hdrop (s.emit (.wrote f)), by simp [afterWrite, State.dropRx]⟩
    | _ => exact ⟨rfl, by simp [afterWrite]⟩
  | ioError e hpc => exact Or.inr (Or.inr ⟨children_told_finish _ _, rfl⟩)
  | spawnOk argv hpc => exact Or.inl ⟨argv, rfl, rfl, by simp [spawned]⟩
  | spawnErr e argv hpc => exact Or.inr (Or.inr ⟨children_told_finish _ _, rfl⟩)
  | recv c ch q hpc hc hq =>
    right; right
    refine ⟨(children_told_beginWrite _ _ _).trans ?_, by simp⟩
    unfold children
    simp [hc, Child.told]
  | recvNone c hpc hc hq hg => exact Or.inr (Or.inr ⟨rfl, rfl⟩)
  | waitOk c st hpc hc hst => exact Or.inr (Or.inr ⟨children_told_beginWrite _ _ _, by simp⟩)
  | waitErr e hpc => exact Or.inr (Or.inr ⟨children_told_finish _ _, rfl⟩)
  | timeout hpc => exact Or.inr (Or.inr ⟨children_told_beginWrite _ _ _, by simp [timeout]⟩)

theorem map_set_same {α β : Type} {f : α → β} {l : List α} {i : Nat} {a b : α} (ha : l[i]? = some a) (h : f b = f a) :
    (l.set i b).map f = l.map f := by
  induction l generalizing i with
  | nil => rfl
  | cons c l ih =>
    cases i with
    | zero =>
      simp only [List.getElem?_cons_zero, Option.some.injEq] at ha
      rw [List.set_cons_zero, List.map_cons, List.map_cons, h, ha]
    | succ i => rw [List.set_cons_succ, List.map_cons, List.map_cons, ih ha]

theorem childFollows_spawn (b : Behaviour) (argv : List Str) : ChildFollows b (Child.spawn argv) :=
  ⟨List.nil_prefix, fun hg => (by cases hg.1), fun st hst => (by cases hst)⟩

theorem childrenFollow_step {a : Action} (ha : Follows B io s a) (hi : ChildrenFollow B s) (h : step E s a = some s') :
    ChildrenFollow B s' := by
  rcases children_step h with ⟨argv, rfl, hcs, hsp⟩ | ⟨i, c, c', b, hc, hs, hcs, hlog, hwho⟩ | ⟨hcs, hsp⟩
  · refine ⟨fun i c hc => ?_, by rw [hsp, hcs, hi.spawns, List.map_append]; rfl⟩
    rw [hcs] at hc
    by_cases hlt : i < (children s).length
    · rw [List.getElem?_append_left hlt] at hc
      exact hi.each i c hc
    · rw [List.getElem?_append_right (by omega)] at hc
      have hidx : i = (children s).length := by
        have := (List.getElem?_eq_some_iff.1 hc).1
        simp only [List.length_cons, List.length_nil] at this
        omega
      subst hidx
      rw [Nat.sub_self, List.getElem?_cons_zero, Option.some.injEq] at hc
      exact ⟨ha, hc ▸ childFollows_spawn _ _⟩
  · have hf : ChildFollows (B i) c' := by
      rcases hwho with ⟨rfl, hchild, rfl⟩ | ⟨rfl, hleft⟩
      · exact ha c c' hchild hs
      · exact ha c c' hleft hs
    constructor
    · intro j d hd
      rw [hcs] at hd
      by_cases hj : i = j
      · subst hj
        rw [List.getElem?_set_self (List.getElem?_eq_some_iff.1 hc).1, Option.some.injEq] at hd
        exact ⟨(hi.each i c hc).1, hd ▸ hf⟩
      · rw [List.getElem?_set_ne hj] at hd
        exact hi.each j d hd
    · rw [hlog, hi.spawns, hcs, map_set_same hc (Child.step_keeps hs).1]
  · refine ⟨fun i c hc => ?_, ?_⟩
    · have hm : ((children s').map Child.told)[i]? = some (Child.told c) := by rw [List.getElem?_map, hc]; rfl
      rw [hcs, List.getElem?_map, Option.map_eq_some_iff] at hm
      obtain ⟨d, hd, hdc⟩ := hm
      obtain ⟨hsp', hf⟩ := hi.each i d hd
      refine ⟨hsp', ?_⟩
      have hf' : ChildFollows (B i) (Child.told d) := hf
      rw [hdc] at hf'
      exact hf'
    · have hargv : ∀ cs : List Child, cs.map Child.argv = (cs.map Child.told).map Child.argv := by
        intro cs
        rw [List.map_map]
        rfl
      rw [hsp, hi.spawns, hargv, hargv (children s'), hcs]

theorem childrenFollow_run {as : List Action} (hB : Lts.Meets (step E) (Follows B io) (init X) as)
    (h : run E (init X) as = some s) : ChildrenFollow B s :=
  Lts.run_inv_meets (ChildrenFollow B) (fun _ _ _ ha hi hs => childrenFollow_step ha hi hs) hB
    ⟨fun i c hc => (by cases hc), rfl⟩ h

/-! ## The account of the frames read -/

inductive Phase (X : Ext) where
  | auth (keys : List (AuthorizedKey X))
  | serve
  | over

/-- What a session has written and spawned. -/
structure Account (X : Ext) where
  phase : Phase X
  frames : List Frame
  spawns : List (List Str)

/-- Before anything has been read. -/
def opened (X : Ext) (E : Env) : Account X :=
  match loadAuthorizedKeys X E.authorizedKeys with
  | .error _ => ⟨.over, [], []⟩
  | .ok keys => if (challenge E).Fits DEFAULT_MAX_PAYLOAD_LEN then ⟨.auth keys, [challenge E], []⟩ else ⟨.over, [], []⟩

namespace Account

/-- A frame is written, or is too large, which ends the session. -/
def write (t : Account X) (f : Frame) (next : Phase X) : Account X :=
  if f.Fits DEFAULT_MAX_PAYLOAD_LEN then { t with phase := next, frames := t.frames ++ [f] } else { t with phase := .over }

def runCommand (t : Account X) (b : Behaviour) (argv : List Str) : Account X :=
  match b.spawn with
  | .error _ => { t with phase := .over }
  | .ok () =>
    match b.wait with
    | .error _ => ⟨.over, t.frames ++ streamFrames b.chunks, t.spawns ++ [argv]⟩
    | .ok st => ⟨.serve, t.frames ++ (streamFrames b.chunks ++ [exitFrame (st.getD (-1))]), t.spawns ++ [argv]⟩

/-- The session reads `f`. -/
def hear (E : Env) (B : Nat → Behaviour) (t : Account X) (f : Frame) : Account X :=
  match t.phase with
  | .over => t
  | .auth keys =>
    match authReaction E keys f with
    | .accept entry _ => t.write (authOk E entry) .serve
    | .refuse g => t.write g .over
    | .fail _ => { t with phase := .over }
  | .serve =>
    match reaction X E f with
    | .deny g => t.write g .serve
    | .run argv => t.runCommand (B t.spawns.length) argv
    | .refuse g => t.write g .over
    | .fail _ => { t with phase := .over }

/-- `u` has everything `t` has. -/
def Le (t u : Account X) : Prop := t.frames <+: u.frames ∧ t.spawns <+: u.spawns

theorem Le.refl (t : Account X) : t.Le t := ⟨List.prefix_refl _, List.prefix_refl _⟩

theorem Le.trans {t u v : Account X} (h1 : t.Le u) (h2 : u.Le v) : t.Le v := ⟨h1.1.trans h2.1, h1.2.trans h2.2⟩

theorem le_write (t : Account X) (f : Frame) (next : Phase X) : t.Le (t.write f next) := by
  unfold write
  split
  · exact ⟨List.prefix_append _ _, List.prefix_refl _⟩
  · exact Le.refl t

theorem le_runCommand (t : Account X) (b : Behaviour) (argv : List Str) : t.Le (t.runCommand b argv) := by
  unfold runCommand
  split
  · exact Le.refl t
  · split
    · exact ⟨List.prefix_append _ _, List.prefix_append _ _⟩
    · exact ⟨List.prefix_append _ _, List.prefix_append _ _⟩

theorem le_hear (t : Account X) (f : Frame) : t.Le (t.hear E B f) := by
  unfold hear
  split
  · exact Le.refl t
  · split
    · exact le_write _ _ _
    · exact le_write _ _ _
    · exact Le.refl t
  · split
    · exact le_write _ _ _
    · exact le_runCommand _ _ _
    · exact le_write _ _ _
    · exact Le.refl t

theorem le_foldl (t : Account X) (fs : List Frame) : t.Le (fs.foldl (hear E B) t) := by
  induction fs generalizing t with
  | nil => exact Le.refl t
  | cons f fs ih => exact (le_hear t f).trans (ih _)

theorem foldl_over {t : Account X} (h : t.phase = .over) (fs : List Frame) : fs.foldl (hear E B) t = t := by
  induction fs with
  | nil => rfl
  | cons f fs ih =>
    have hf : t.hear E B f = t := by
      unfold hear
      rw [h]
    rw [List.foldl_cons, hf, ih]

end Account

open Account

/-- What a session does that reads these frames. -/
def account (X : Ext) (E : Env) (B : Nat → Behaviour) (reads : List Frame) : Account X :=
  reads.foldl (hear E B) (opened X E)

theorem account_append (reads more : List Frame) :
    account X E B (reads ++ more) = more.foldl (hear E B) (account X E B reads) := List.foldl_append

/-- **Reading less**, a session does less. -/
theorem account_le {reads more : List Frame} (h : reads <+: more) : (account X E B reads).Le (account X E B more) := by
  obtain ⟨rest, rfl⟩ := h
  rw [account_append]
  exact le_foldl _ _

/-! ## A conversation and its account -/

variable {keys : List (AuthorizedKey X)} {resp req : Frame} {entry : AuthorizedKey X} {reqs : List Frame}
  {cs : List Child} {blocks : List (List Frame)}

theorem hear_serve (fs : List Frame) (sp : List (List Str)) (f : Frame) :
    hear (X := X) E B ⟨.serve, fs, sp⟩ f =
      match reaction X E f with
      | .deny g => write ⟨.serve, fs, sp⟩ g .serve
      | .run argv => runCommand ⟨.serve, fs, sp⟩ (B sp.length) argv
      | .refuse g => write ⟨.serve, fs, sp⟩ g .over
      | .fail _ => ⟨.over, fs, sp⟩ := rfl

theorem write_fits (t : Account X) {f : Frame} (hf : f.Fits DEFAULT_MAX_PAYLOAD_LEN) (next : Phase X) :
    t.write f next = { t with phase := next, frames := t.frames ++ [f] } := if_pos hf

theorem write_not_fits (t : Account X) {f : Frame} (hf : ¬ f.Fits DEFAULT_MAX_PAYLOAD_LEN) (next : Phase X) :
    t.write f next = { t with phase := .over } := if_neg hf

/-- A command that has been run to its end has been run as `B` says. -/
theorem runCommand_reported {c : Child} {taken : List StreamChunk} {code : Int32} {n : Nat} (hc : Reported False c taken code)
    (hsp : (B n).spawn = .ok ()) (hf : ChildFollows (B n) c) (fs : List Frame) (sp : List (List Str)) :
    runCommand (X := X) ⟨.serve, fs, sp⟩ (B n) c.argv =
      ⟨.serve, fs ++ (streamFrames taken ++ [exitFrame code]), sp ++ [c.argv]⟩ := by
  rcases hc.exit with ⟨hT, -⟩ | ⟨hgone, htaken, st, hst, hcode⟩
  · exact hT.elim
  · have hchunks : taken = (B n).chunks := htaken.trans (hf.2.1 hgone)
    have hwait := hf.2.2 st hst
    unfold runCommand
    simp only [hsp, hwait, hchunks, hcode]

theorem answered_account (ha : Answered X E False reqs cs blocks)
    (hf : AllFollow B cs) (fs : List Frame) :
    reqs.foldl (hear (X := X) E B) ⟨.serve, fs, []⟩ = ⟨.serve, fs ++ blocks.flatten, cs.map Child.argv⟩ := by
  induction ha with
  | nil => simp
  | denied ha hr hg ih =>
    rw [List.foldl_append, ih hf, List.foldl_cons, List.foldl_nil, hear_serve, hr]
    simp only [write_fits _ hg, List.flatten_append, List.flatten_singleton, List.append_assoc]
  | @ran reqs cs blocks req c taken code ha hr hc ih =>
    obtain ⟨hsp, hlast⟩ := hf.last
    rw [List.foldl_append, ih hf.init, List.foldl_cons, List.foldl_nil, hear_serve, hr]
    simp only [List.length_map]
    rw [runCommand_reported hc hsp hlast]
    simp

theorem account_loaded (hk : loadAuthorizedKeys X E.authorizedKeys = .ok keys)
    (hf : (challenge E).Fits DEFAULT_MAX_PAYLOAD_LEN) : opened X E = ⟨.auth keys, [challenge E], []⟩ := by
  unfold opened
  rw [hk]
  exact if_pos hf

theorem account_resp (hk : loadAuthorizedKeys X E.authorizedKeys = .ok keys)
    (hf : (challenge E).Fits DEFAULT_MAX_PAYLOAD_LEN) : account X E B [resp] =
      match authReaction E keys resp with
      | .accept entry _ => write ⟨.auth keys, [challenge E], []⟩ (authOk E entry) .serve
      | .refuse g => write ⟨.auth keys, [challenge E], []⟩ g .over
      | .fail _ => ⟨.over, [challenge E], []⟩ := by
  rw [account, List.foldl_cons, List.foldl_nil, account_loaded hk hf]
  rfl

theorem account_greeted (hg : Greeted E keys resp entry) :
    account X E B [resp] = ⟨.serve, greeting E entry, []⟩ := by
  obtain ⟨signature, hacc⟩ := hg.accepted
  rw [account_resp hg.loaded hg.challenge, hacc]
  exact write_fits _ hg.authOk _

/-- The requests of a greeted client. -/
theorem account_served (hg : Greeted E keys resp entry) (ha : Answered X E False reqs cs blocks)
    (hf : AllFollow B cs) :
    account X E B (resp :: reqs) = ⟨.serve, greeting E entry ++ blocks.flatten, cs.map Child.argv⟩ := by
  have hcons : resp :: reqs = [resp] ++ reqs := rfl
  rw [hcons, account_append, account_greeted hg, answered_account ha hf]

theorem account_asked (hg : Greeted E keys resp entry) (ha : Answered X E False reqs cs blocks)
    (hf : AllFollow B cs) :
    account X E B (resp :: (reqs ++ [req])) =
      hear E B ⟨.serve, greeting E entry ++ blocks.flatten, cs.map Child.argv⟩ req := by
  have hcons : resp :: (reqs ++ [req]) = resp :: reqs ++ [req] := rfl
  rw [hcons, account_append, account_served hg ha hf]
  rfl

/-- What `B` allows to go wrong. -/
def regimeOf (B : Nat → Behaviour) (io : Prop) : Regime where
  timeouts := False
  ioErrors := io
  spawnFails n := ∃ e, (B n).spawn = .error e
  waitFails n := ∃ e, (B n).wait = .error e

theorem Follows.allows {a : Action} (h : Follows B io s a) : (regimeOf B io).Allows s a := by
  cases a with
  | timeout => exact h.elim
  | ioError e => exact h
  | spawnErr e => exact ⟨e, h⟩
  | waitErr e => exact ⟨e, h⟩
  | _ => trivial

variable {act : Activity} {reads frames : List Frame}

/-- The account `t` has all these frames and commands. -/
def Covers (t : Account X) (frames : List Frame) (cs : List Child) : Prop :=
  frames <+: t.frames ∧ cs.map Child.argv <+: t.spawns

theorem Covers.mono {t u : Account X} (h : Covers t frames cs) (hle : t.Le u) : Covers u frames cs :=
  ⟨h.1.trans hle.1, h.2.trans hle.2⟩

theorem covers_self (phase : Phase X) : Covers ⟨phase, frames, cs.map Child.argv⟩ frames cs :=
  ⟨List.prefix_refl _, List.prefix_refl _⟩

theorem covers_runCommand {c : Child} {taken : List StreamChunk} (hc : Running c taken)
    (hsp : (B cs.length).spawn = .ok ()) (hf : ChildFollows (B cs.length) c) (fs : List Frame) :
    Covers (runCommand (X := X) ⟨.serve, fs, cs.map Child.argv⟩ (B cs.length) c.argv) (fs ++ streamFrames taken)
      (cs ++ [c]) := by
  have htaken : streamFrames taken <+: streamFrames (B cs.length).chunks := by
    obtain ⟨more, hmore⟩ := (show taken <+: c.sent from ⟨c.queue, hc.queue.symm⟩).trans hf.1
    rw [← hmore, streamFrames_append]
    exact List.prefix_append _ _
  unfold runCommand
  rw [hsp]
  cases (B cs.length).wait with
  | error e => exact ⟨(List.prefix_append_right_inj _).2 htaken, by simp⟩
  | ok st => exact ⟨(List.prefix_append_right_inj _).2 (htaken.trans (List.prefix_append _ _)), by simp⟩

/-- **A conversation under way** has said at most what the account of its frames says. -/
theorem talk_account (h : Talk E False keys act reads cs frames) (hf : AllFollow B cs) :
    Covers (account X E B reads) frames cs := by
  cases h with
  | opening => exact ⟨List.nil_prefix, List.nil_prefix⟩
  | challenged hk hfit =>
    have ho : account X E B [] = ⟨.auth keys, [challenge E], []⟩ := account_loaded hk hfit
    rw [ho]
    exact ⟨List.prefix_refl _, List.nil_prefix⟩
  | heard hk hfit hr =>
    have ho : account X E B [] = ⟨.auth keys, [challenge E], []⟩ := account_loaded hk hfit
    refine Covers.mono ?_ (account_le (List.nil_prefix : [] <+: [_]))
    rw [ho]
    exact ⟨List.prefix_refl _, List.nil_prefix⟩
  | refused hk hc hr hfit =>
    rw [account_resp hk hc, hr]
    simp only [write_fits _ hfit]
    exact ⟨List.prefix_refl _, List.nil_prefix⟩
  | idle hg ha =>
    rw [account_served hg ha hf]
    exact covers_self _
  | asked hg ha hr =>
    rw [account_asked hg ha hf]
    exact (covers_self .serve).mono (le_hear _ _)
  | running hg ha hr hc =>
    rw [account_asked hg ha hf.init, hear_serve, hr]
    simp only [List.length_map]
    exact covers_runCommand hc hf.last.1 hf.last.2 _
  | waiting hg ha hr hc hd =>
    rw [account_asked hg ha hf.init, hear_serve, hr]
    simp only [List.length_map]
    exact covers_runCommand hc hf.last.1 hf.last.2 _
  | refusing hg ha hr hfit =>
    rw [account_asked hg ha hf, hear_serve, hr]
    simp only [write_fits _ hfit]
    exact covers_self _

/-- **Where it ended**, it has said all of it, and it ended for a reason in the frames read or in what
follows them. -/
theorem talk_account_end (h : Talk E False keys act reads (children s) frames) (hf : AllFollow B (children s))
    (he : Ends (regimeOf B io) E s act) :
    ∃ phase, account X E B reads = ⟨phase, frames, (children s).map Child.argv⟩ ∧ (phase = .over ∨ Unreadable s) := by
  generalize hcs : children s = cs at h hf
  cases h with
  | opening =>
    refine ⟨.over, ?_, Or.inl rfl⟩
    show opened X E = _
    unfold opened
    cases hk : loadAuthorizedKeys X E.authorizedKeys with
    | error e => rfl
    | ok keys' => exact if_neg (he keys' hk)
  | challenged hk hfit => exact ⟨_, account_loaded hk hfit, Or.inr he⟩
  | @heard resp hk hfit hr =>
    refine ⟨.over, ?_, Or.inl rfl⟩
    rw [account_resp hk hfit]
    cases hre : authReaction E keys resp with
    | accept entry signature =>
      rw [hre] at hr
      exact write_not_fits _ hr _
    | refuse g =>
      rw [hre] at hr
      exact write_not_fits _ hr _
    | fail e => rfl
  | refused hk hc hr hfit =>
    refine ⟨.over, ?_, Or.inl rfl⟩
    rw [account_resp hk hc, hr]
    exact write_fits _ hfit _
  | idle hg ha => exact ⟨_, account_served hg ha hf, Or.inr he⟩
  | @asked resp req entry reqs cs blocks r hg ha hr =>
    refine ⟨.over, ?_, Or.inl rfl⟩
    rw [account_asked hg ha hf, hear_serve, hr]
    cases r with
    | deny g => exact write_not_fits _ he _
    | run argv =>
      obtain ⟨e, hsp⟩ := he
      rw [hcs] at hsp
      simp only [List.length_map, runCommand, hsp]
    | refuse g => exact write_not_fits _ he _
    | fail e => rfl
  | running hg ha hr hc => exact he.elim
  | @waiting resp req entry reqs cs blocks c taken hg ha hr hc hd =>
    refine ⟨.over, ?_, Or.inl rfl⟩
    obtain ⟨e, hwait⟩ := he
    rw [hcs, List.length_append, List.length_singleton, Nat.add_sub_cancel] at hwait
    obtain ⟨hsp, hfc⟩ := hf.last
    have htaken : taken = (B cs.length).chunks := by
      rw [← hfc.2.1 hd.2, hc.queue, hd.1, List.append_nil]
    rw [account_asked hg ha hf.init, hear_serve, hr]
    simp only [List.length_map, runCommand, hsp, hwait, htaken, List.map_append, List.map_cons, List.map_nil]
  | refusing hg ha hr hfit =>
    refine ⟨.over, ?_, Or.inl rfl⟩
    rw [account_asked hg ha hf, hear_serve, hr]
    exact write_fits _ hfit _

/-! ## Two runs -/

theorem told_follows {as : List Action} (hB : Lts.Meets (step E) (Follows B io) (init X) as)
    (h : run E (init X) as = some s) : Told (regimeOf B io) E s :=
  told_run (hB.mono fun _ _ ha => ha.allows) h

/-- The session is over, or waits for bytes that have not arrived. -/
def Finished (s : State X) : Prop :=
  match s.pc with
  | .done _ => True
  | .awaitAuth | .serve => readFrame DEFAULT_MAX_PAYLOAD_LEN s.inbuf = .error .unexpectedEof
  | _ => False

/-- No frame begins what is unreadable. -/
theorem not_unreadable {f : Frame} (hf : f.Fits DEFAULT_MAX_PAYLOAD_LEN) (hin : encode f <+: s.inbuf) :
    ¬ Unreadable s := by
  rintro ⟨p, e, hp, hr, heof⟩
  -- what was read and the frame begin the same stream
  rcases List.prefix_or_prefix_of_prefix hin hp with ⟨t, rfl⟩ | ⟨t, ht⟩
  · rw [readFrame_encode hf] at hr
    cases hr
  · by_cases ht0 : t = []
    · rw [ht0, List.append_nil] at ht
      have hok := readFrame_encode hf []
      rw [List.append_nil, ← ht, hr] at hok
      cases hok
    · have htr := readFrame_truncated (truncated_of_isPrefix hf ht.symm ht0)
      rw [hr, Except.error.injEq] at htr
      obtain ⟨rfl, -⟩ := heof htr
      have hlen := hin.length_le
      have hlen' := congrArg List.length ht
      rw [List.length_append] at hlen'
      have := List.length_pos_iff.2 ht0
      omega

/-- **A finished session** has said exactly what the account of its frames says. -/
theorem finished_account {as : List Action} (h : run E (init X) as = some s)
    (hB : Lts.Meets (step E) (Follows B False) (init X) as) (hfin : Finished s) :
    ∃ phase, account X E B (readsOf s.log) = ⟨phase, wrotesOf s.log, spawnsOf s.log⟩ ∧
      s.out = encodeAll (wrotesOf s.log) ∧
      (phase = .over ∨ ∀ f : Frame, f.Fits DEFAULT_MAX_PAYLOAD_LEN → ¬ encode f <+: s.inbuf) := by
  have hf := childrenFollow_run hB h
  -- `t` is the session itself, or the one whose client has closed the stream as well
  have key : ∀ (t : State X) (act : Activity), children t = children s → t.inbuf = s.inbuf →
      Talk E False s.keys act (readsOf s.log) (children s) (wrotesOf s.log) → Ends (regimeOf B False) E t act →
      ∃ phase, account X E B (readsOf s.log) = ⟨phase, wrotesOf s.log, spawnsOf s.log⟩ ∧
        (phase = .over ∨ ∀ f : Frame, f.Fits DEFAULT_MAX_PAYLOAD_LEN → ¬ encode f <+: s.inbuf) := by
    intro t act hct hin ht he
    obtain ⟨phase, hacc, hphase⟩ := talk_account_end (hct ▸ ht) (hct ▸ hf.each) he
    refine ⟨phase, by rw [hacc, hct, hf.spawns], hphase.imp_right fun hu f hfit hpre => ?_⟩
    exact not_unreadable hfit (hin ▸ hpre) hu
  have hwaiting : ∀ act, s.pc.activity = some act → (act = .challenged ∨ act = .idle) → s.pc.begun = [] →
      s.pc.rest = [] → readFrame DEFAULT_MAX_PAYLOAD_LEN s.inbuf = .error .unexpectedEof →
      ∃ phase, account X E B (readsOf s.log) = ⟨phase, wrotesOf s.log, spawnsOf s.log⟩ ∧
        s.out = encodeAll (wrotesOf s.log) ∧
        (phase = .over ∨ ∀ f : Frame, f.Fits DEFAULT_MAX_PAYLOAD_LEN → ¬ encode f <+: s.inbuf) := by
    intro act ha hact hb hr hread
    obtain ⟨ht, ho⟩ := (told_follows hB h).quiet ha hb hr
    have hu : Unreadable { s with eof := true } := ⟨s.inbuf, _, List.prefix_refl _, hread, fun _ => ⟨rfl, rfl⟩⟩
    have he : Ends (regimeOf B False) E { s with eof := true } act := by
      rcases hact with rfl | rfl <;> exact hu
    obtain ⟨phase, hacc, hphase⟩ := key { s with eof := true } act rfl rfl ht he
    exact ⟨phase, hacc, ho, hphase⟩
  unfold Finished at hfin
  generalize hpc : s.pc = pc at hfin
  cases pc with
  | awaitAuth => exact hwaiting .challenged (by rw [hpc]; rfl) (Or.inl rfl) (by rw [hpc]; rfl) (by rw [hpc]; rfl) hfin
  | serve => exact hwaiting .idle (by rw [hpc]; rfl) (Or.inr rfl) (by rw [hpc]; rfl) (by rw [hpc]; rfl) hfin
  | done r =>
    obtain ⟨act, frames, ht, hst⟩ := told_follows hB h
    cases hst with
    | live ha =>
      rw [hpc] at ha
      cases ha
    | done r hr hw ho he =>
      rcases he with hio | ⟨rfl, ho', he⟩
      · exact hio.elim
      · obtain ⟨phase, hacc, hphase⟩ := key s act rfl rfl ht he
        exact ⟨phase, hacc, ho', hphase⟩
  | _ => exact hfin.elim

/-- **Cutting a connection.** Against the same commands, a session that has received a prefix of what a
finished one has received has spawned a prefix of its commands and written a prefix of its frames,
and each command it has spawned was asked for by a frame that lies whole in what it has received. -/
theorem cut_session (X : Ext) (E : Env) (B : Nat → Behaviour) (as as' : List Action) (s s' : State X)
    (h : run E (init X) as = some s) (hB : Lts.Meets (step E) (Follows B False) (init X) as) (hfin : Finished s)
    (h' : run E (init X) as' = some s') (hB' : Lts.Meets (step E) (Follows B True) (init X) as')
    (hcut : s'.received <+: s.received) :
    spawnsOf s'.log <+: spawnsOf s.log ∧ wrotesOf s'.log <+: wrotesOf s.log ∧ s'.out <+: s.out ∧
      s'.received = encodeAll (readsOf s'.log) ++ s'.inbuf ∧
      (spawnsOf s'.log).Sublist ((readsOf s'.log).tail.filterMap (argvOf X E)) := by
  have hi := inv_run h
  have hi' := inv_run h'
  obtain ⟨phase, hacc, hout, hphase⟩ := finished_account h hB hfin
  -- the shorter account is a part of the longer one
  have hle : (account X E B (readsOf s'.log)).Le (account X E B (readsOf s.log)) := by
    rw [hi.base.stream, hi'.base.stream] at hcut
    rcases compare_frames hi'.base.fits hi.base.fits hcut with hpre | ⟨f, more, hreads, hf⟩
    · exact account_le hpre
    · have hover : (account X E B (readsOf s.log)).phase = .over := by
        rw [hacc]
        exact hphase.resolve_right fun hno => hno f (hi'.base.fits f (by rw [hreads]; simp)) hf
      rw [hreads, account_append, foldl_over hover]
      exact Le.refl _
  obtain ⟨act, frames, ht, hst⟩ := told_follows hB' h'
  have hf' := childrenFollow_run hB' h'
  have hcov := (talk_account ht hf'.each).mono hle
  rw [hacc] at hcov
  obtain ⟨hw, ho⟩ := hst.prefixes
  refine ⟨by rw [hf'.spawns]; exact hcov.2, hw.trans hcov.1, ?_, hi'.base.stream, ?_⟩
  · rw [hout]
    obtain ⟨more, hmore⟩ := hcov.1
    refine ho.trans ⟨encodeAll more, ?_⟩
    rw [← encodeAll_append, hmore]
  · rcases hi'.stage.spawned with hn | ⟨resp, rest, entry, hserved⟩
    · rw [hn]
      exact List.nil_sublist _
    · have hsub := hserved.spawns
      rw [List.append_nil] at hsub
      rw [hserved.reads]
      exact hsub

/-- A command that ends at once. -/
def quickActions : List Action :=
  [.spawnOk, .child (.exit (some 0)), .child (.close .out), .child (.close .err), .child (.eof .out),
    .child (.eof .err), .recvNone, .waitOk, .put (encode (exitFrame 0)).length, .flushed]

def quick : Behaviour := ⟨.ok (), [], .ok (some 0)⟩

theorem run_quick {argv : List Str} (hpc : s.pc = .spawning argv) : ∃ t, run E s quickActions = some t ∧
    t.pc = .serve ∧ t.inbuf = s.inbuf ∧ t.received = s.received ∧
    Lts.Meets (step E) (Follows (fun _ => quick) False) s quickActions := by
  have hlen : 0 < (encode (exitFrame 0)).length := by rw [length_encode]; omega
  unfold quickActions run
  simp [Lts.run, Lts.Meets, Follows, quick, ChildFollows, step, hpc, spawned, Child.step, Child.spawn, Child.pipe,
    Child.setPipe, Child.freshPipe, Child.sendersGone, waitOk, beginWrite_fits (exitFrame_fits _), hlen,
    afterWrite, State.dropRx, -length_encode]
  refine ⟨?_, ?_, ?_, ?_⟩
  all_goals
    rintro c c' rfl hs
    simp at hs
    subst hs
    simp

/-- An accepted response arrives, then some bytes, and the stream ends. -/
def cutActions (E : Env) (resp : Frame) (entry : AuthorizedKey X) (part : Bytes) : List Action :=
  openingActions E ++ [.clientSend (encode resp), .read, .put (encode (authOk E entry)).length, .flushed,
    .clientSend part, .clientClose, .read]

/-- Where the stream ends within a frame, nothing is made of it. -/
theorem run_cut {keys : List (AuthorizedKey X)} {resp f : Frame} {entry : AuthorizedKey X} {ar : AuthResponsePayload}
    {part more : Bytes} (hload : loadAuthorizedKeys X E.authorizedKeys = .ok keys)
    (hacc : Accepted E keys resp entry ar)
    (hf : ∀ g ∈ [challenge E, resp, authOk E entry, f], g.Fits DEFAULT_MAX_PAYLOAD_LEN)
    (hpart : encode f = part ++ more) (hmore : more ≠ []) :
    ∃ t : State X, run E (init X) (cutActions E resp entry part) = some t ∧ t.pc = .done (.ok ()) ∧
      t.received = encode resp ++ part ∧ wrotesOf t.log = [challenge E, authOk E entry] := by
  have hsend : step E (waiting E keys) (.clientSend (encode resp)) =
      some { waiting E keys with received := encode resp, inbuf := encode resp } := rfl
  have hread : step E { waiting E keys with received := encode resp, inbuf := encode resp } .read =
      some (handleAuth E ({ waiting E keys with received := encode resp, inbuf := [] }.emit (.read resp)) resp) :=
    step_readAuth rfl (hf resp (by simp)) (List.append_nil _).symm
  have hend : readFrame DEFAULT_MAX_PAYLOAD_LEN part = .error .unexpectedEof :=
    readFrame_truncated (truncated_of_isPrefix (hf f (by simp)) hpart hmore)
  have hrest : ∀ s : State X, s.pc = .serve → s.inbuf = [] → s.eof = false → s.received = encode resp →
      run E s [.clientSend part, .clientClose, .read] =
        some ({ s with received := encode resp ++ part, inbuf := part, eof := true }.finish (.ok ())) := by
    intro s hpc hin heof hrec
    simp [run, Lts.run, step, hpc, hin, heof, hrec, read, hend]
  have hwaiting := (run_cons_eq hsend [.read, .put (encode (authOk E entry)).length, .flushed, .clientSend part,
    .clientClose, .read]).trans (run_cons_eq hread _)
  rw [handleAuth_accepted hacc (hf (authOk E entry) (by simp)), run_write rfl, hrest _ rfl rfl rfl rfl] at hwaiting
  refine ⟨_, Lts.run_append.2 ⟨_, run_opening hload (hf _ (by simp)), hwaiting⟩, rfl, rfl, ?_⟩
  simp [afterWrite, waiting]

/-- The connection of the sample client: whole, and with an end within the request. -/
theorem cut_session_sample : ∃ (as as' : List Action) (s s' : State Ext.sample),
    run sampleEnv (init Ext.sample) as = some s ∧ run sampleEnv (init Ext.sample) as' = some s' ∧
    s'.pc = .done (.ok ()) ∧ s'.received = encode sampleResponse ++ (encode sampleRequest).take 12 ∧
    wrotesOf s'.log = [challenge sampleEnv, authOk sampleEnv Sample.entry] ∧
    spawnsOf s'.log <+: spawnsOf s.log ∧ wrotesOf s'.log <+: wrotesOf s.log ∧ s'.out <+: s.out := by
  obtain ⟨s₀, argv, hrun, hpc, hin, sig, hlog⟩ := spawning_sample
  obtain ⟨s, hquick, hserve, hinbuf, hrec, hmeets⟩ := run_quick (E := sampleEnv) hpc
  have hall : run sampleEnv (init Ext.sample) (sampleActions ++ quickActions) = some s :=
    Lts.run_append.2 ⟨s₀, hrun, hquick⟩
  have hreceived : s.received = encode sampleResponse ++ encode sampleRequest := by
    rw [hrec, (inv_run hrun).base.stream, hin, hlog]
    simp
  have hfits : ∀ g ∈ [challenge sampleEnv, sampleResponse, authOk sampleEnv Sample.entry, sampleRequest],
      g.Fits DEFAULT_MAX_PAYLOAD_LEN := by decide +kernel
  obtain ⟨s', hall', hdone, hreceived', hwrote'⟩ := run_cut Sample.load_keyFile accepted_sample hfits
    (List.take_append_drop 12 (encode sampleRequest)).symm (by decide +kernel)
  have hmeets₀ : Lts.Meets (step sampleEnv) (Follows (fun _ => quick) False) (init Ext.sample) sampleActions := by
    refine Lts.meets_of_forall fun a ha t => ?_
    simp only [sampleActions, servedActions, List.dropLast, List.mem_cons, List.not_mem_nil, or_false] at ha
    rcases ha with rfl | rfl | rfl | rfl | rfl | rfl | rfl | rfl <;> trivial
  have hmeets' : Lts.Meets (step sampleEnv) (Follows (fun _ => quick) True) (init Ext.sample)
      (cutActions sampleEnv sampleResponse Sample.entry ((encode sampleRequest).take 12)) := by
    refine Lts.meets_of_forall fun a ha t => ?_
    simp only [cutActions, openingActions, List.mem_append, List.mem_cons, List.not_mem_nil, or_false] at ha
    rcases ha with (rfl | rfl | rfl) | rfl | rfl | rfl | rfl | rfl | rfl | rfl <;> trivial
  have hat : ∀ m, Lts.run (step sampleEnv) (init Ext.sample) sampleActions = some m →
      Lts.Meets (step sampleEnv) (Follows (fun _ => quick) False) m quickActions := by
    intro m hm
    rw [Option.some.inj (hm.symm.trans hrun)]
    exact hmeets
  have hfin : Finished s := by
    unfold Finished
    rw [hserve]
    show readFrame DEFAULT_MAX_PAYLOAD_LEN s.inbuf = _
    rw [hinbuf, hin]
    exact readFrame_truncated (Or.inl (by simp))
  have hbegins : s'.received <+: s.received := by
    rw [hreceived', hreceived]
    exact (List.prefix_append_right_inj _).2 (List.take_prefix _ _)
  have hcut := cut_session Ext.sample sampleEnv (fun _ => quick) _ _ s s' hall (hmeets₀.append hat) hfin hall' hmeets'
    hbegins
  exact ⟨_, _, s, s', hall, hall', hdone, hreceived', hwrote', hcut.1, hcut.2.1, hcut.2.2.1⟩

end Sao.Session
