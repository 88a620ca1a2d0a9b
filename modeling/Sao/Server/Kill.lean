import Sao.Server.Timeout

/-!
# Whom the timeout kills

The timeout branch sends SIGKILL to the pid it took at the spawn, wherever `exec` was suspended.
Once `child.wait()` has returned, that pid is free for another process, and `exec` still has
`EXEC_EXIT` to write.

* `killsLive_iff` — in a run every SIGKILL goes to a process that has not been reaped, exactly when
  no timeout fires while an `EXEC_EXIT` with the command's own code is being written.
* `killed_reaped` — a run in which a client that does not read makes the session kill a reaped pid.
-/

namespace Sao.Session

open MsgType State

variable {X : Ext} {E : Env} {s s' : State X}

/-- The process of the command begins to run, or is reaped. -/
def Event.life? : Event X → Option Bool
  | .spawned _ => some true
  | .reaped => some false
  | _ => none

/-- Whether the process spawned last has not been reaped; `none` before the first. -/
def lifeOf (log : List (Event X)) : Option Bool := (log.filterMap Event.life?).getLast?

/-- Every SIGKILL of the log was sent to a process spawned before it and not reaped before it. -/
def KillsLive (log : List (Event X)) : Prop :=
  ∀ pre cut post, log = pre ++ .killed cut :: post → lifeOf pre = some true

/-- `exec` is suspended in the `write_frame` of `EXEC_EXIT`. -/
def Pc.AtExit : Pc → Prop
  | .write _ _ .execEnd => True
  | _ => False

/-- What the place of the task says about the process. -/
def Pc.life : Pc → Option Bool
  | .recv | .wait | .write _ _ .forward => some true
  | .write _ _ .execEnd => some false
  | _ => none

theorem lifeOf_append (l m : List (Event X)) : lifeOf (l ++ m) = (lifeOf m).or (lifeOf l) := by
  unfold lifeOf
  rw [List.filterMap_append, List.getLast?_append]

theorem life_inExec {pc : Pc} (h : pc.inExec = true) : (pc.life = some true ∧ ¬ pc.AtExit) ∨
    (pc.life = some false ∧ pc.AtExit) := by
  cases pc with
  | write f rest k => cases k <;> first | (exact Or.inl ⟨rfl, id⟩) | (exact Or.inr ⟨rfl, trivial⟩) | cases h
  | recv => exact Or.inl ⟨rfl, id⟩
  | wait => exact Or.inl ⟨rfl, id⟩
  | _ => cases h

/-! ## One step -/

theorem life_beginWrite (s : State X) (f : Frame) (k : Cont) :
    (s.beginWrite f k).pc.life = none ∨ (s.beginWrite f k).pc.life = (Pc.write f (encode f) k).life := by
  rcases beginWrite_cases s f k with ⟨-, h⟩ | ⟨e, h⟩
  · exact Or.inr (by rw [h])
  · exact Or.inl (by rw [h]; rfl)

/-- The place of the task and the log agree on the process. -/
def LifeInv (s : State X) : Prop := ∀ b, s.pc.life = some b → lifeOf s.log = some b

theorem lifeInv_none (h : s.pc.life = none) : LifeInv s := by
  intro b hb
  rw [h] at hb
  cases hb

theorem lifeInv_beginWrite {f : Frame} {k : Cont} (h : ∀ b, (Pc.write f (encode f) k).life = some b → lifeOf s.log = some b) :
    LifeInv (s.beginWrite f k) := by
  intro b hb
  rw [beginWrite_log]
  rcases life_beginWrite s f k with hn | hw
  · rw [hn] at hb
    cases hb
  · exact h b (hw ▸ hb)

theorem lifeInv_step {a : Action} (hi : LifeInv s) (h : step E s a = some s') : LifeInv s' := by
  cases step_cases h with
  | clientSend b he => exact hi
  | clientClose => exact hi
  | child a c c' hc hs => exact hi
  | leftover i a c c' hc hs => exact hi
  | start hpc =>
    unfold Session.start
    split
    · exact lifeInv_none rfl
    · exact lifeInv_beginWrite fun b hb => (by cases hb)
  | readAuth f r hpc hr =>
    rcases handleAuth_cases E ({ s with inbuf := r }.emit (.read f)) f with ⟨entry, ar, -, he⟩ | ⟨g, he⟩ | ⟨r', he⟩
    · rw [he]; exact lifeInv_beginWrite fun b hb => (by cases hb)
    · rw [he]; exact lifeInv_beginWrite fun b hb => (by cases hb)
    · rw [he]; exact lifeInv_none rfl
  | readServe f r hpc hr =>
    rcases handleFrame_cases E ({ s with inbuf := r }.emit (.read f)) f with
      ⟨shell, -, -, he⟩ | ⟨g, k, hk, he⟩ | ⟨r', he⟩
    · rw [he]; exact lifeInv_none rfl
    · rw [he]
      rcases hk with rfl | rfl <;> exact lifeInv_beginWrite fun b hb => (by cases hb)
    · rw [he]; exact lifeInv_none rfl
  | readFail r e hpc hr he => exact lifeInv_none rfl
  | put n f rest k hpc h0 hn =>
    have hi := hi
    unfold LifeInv at hi
    rw [hpc] at hi
    intro b hb
    exact hi b (by cases k <;> exact hb)
  | flushed f k hpc =>
    unfold LifeInv at hi
    rw [hpc] at hi
    intro b hb
    cases k with
    | forward =>
      have hlog : (afterWrite s f .forward).log = s.log ++ [.wrote f] := rfl
      rw [hlog, lifeOf_append]
      exact hi b hb
    | _ => cases hb
  | ioError e hpc => exact lifeInv_none rfl
  | spawnOk argv hpc =>
    intro b hb
    have hlog : (spawned s argv).log = s.log ++ [.spawned argv] := rfl
    rw [hlog, lifeOf_append]
    exact hb
  | spawnErr e argv hpc => exact lifeInv_none rfl
  | recv c chunk q hpc hc hq =>
    refine lifeInv_beginWrite fun b hb => hi b ?_
    rw [hpc]
    exact hb
  | recvNone c hpc hc hq hg =>
    intro b hb
    refine hi b ?_
    rw [hpc]
    exact hb
  | waitOk c code hpc hc hs =>
    refine lifeInv_beginWrite fun b hb => ?_
    rw [emit_log, lifeOf_append]
    exact hb
  | waitErr e hpc => exact lifeInv_none rfl
  | timeout hpc => exact lifeInv_beginWrite fun b hb => (by cases hb)

/-- **One step** kills at most the process of the command it is in. -/
theorem log_kill {a : Action} (h : step E s a = some s') : ∃ l, s'.log = s.log ++ l ∧
    ((∀ cut, .killed cut ∉ l) ∨ l = [.killed s.pc] ∧ s.pc.inExec = true) := by
  cases step_cases h with
  | clientSend b he => exact ⟨[], by simp, by simp⟩
  | clientClose => exact ⟨[], by simp, by simp⟩
  | child a c c' hc hs => exact ⟨[], by simp, by simp⟩
  | leftover i a c c' hc hs => exact ⟨[], by simp, by simp⟩
  | start hpc =>
    refine ⟨[], ?_, by simp⟩
    unfold Session.start
    split <;> simp
  | readAuth f r hpc hr =>
    rcases handleAuth_cases E ({ s with inbuf := r }.emit (.read f)) f with ⟨entry, ar, -, he⟩ | ⟨g, he⟩ | ⟨r', he⟩
    · exact ⟨[.read f, .authed entry ar.signature], by simp [he], by simp⟩
    · exact ⟨[.read f], by simp [he], by simp⟩
    · exact ⟨[.read f], by simp [he], by simp⟩
  | readServe f r hpc hr => exact ⟨[.read f], by simp [handleFrame_log], by simp⟩
  | readFail r e hpc hr he => exact ⟨[], by simp, by simp⟩
  | put n f rest k hpc h0 hn => exact ⟨[], by simp, by simp⟩
  | flushed f k hpc => exact ⟨[.wrote f], by cases k <;> rfl, by simp⟩
  | ioError e hpc => exact ⟨[], by simp, by simp⟩
  | spawnOk argv hpc => exact ⟨[.spawned argv], rfl, by simp⟩
  | spawnErr e argv hpc => exact ⟨[], by simp, by simp⟩
  | recv c chunk q hpc hc hq => exact ⟨[], by simp, by simp⟩
  | recvNone c hpc hc hq hg => exact ⟨[], by simp, by simp⟩
  | waitOk c code hpc hc hs => exact ⟨[.reaped], by simp, by simp⟩
  | waitErr e hpc => exact ⟨[], by simp, by simp⟩
  | timeout hpc => exact ⟨[.killed s.pc], by simp [Session.timeout], Or.inr ⟨rfl, hpc⟩⟩

/-! ## Runs -/

/-- Each SIGKILL went to a live process, or to one reaped while its exit frame is being written. -/
structure KillInv (s : State X) : Prop where
  life : LifeInv s
  kills : ∀ pre cut post, s.log = pre ++ .killed cut :: post →
    (lifeOf pre = some true ∧ ¬ cut.AtExit) ∨ (lifeOf pre = some false ∧ cut.AtExit)

theorem killInv_step {a : Action} (hi : KillInv s) (h : step E s a = some s') : KillInv s' := by
  refine ⟨lifeInv_step hi.life h, ?_⟩
  intro pre cut post heq
  obtain ⟨l, hl, hkill⟩ := log_kill h
  rw [hl] at heq
  -- the SIGKILL is one of the log before, or the one of this step
  rcases List.append_eq_append_iff.1 heq with ⟨m, rfl, hm⟩ | ⟨m, hm, hpost⟩
  · rcases hkill with hno | ⟨rfl, hpc⟩
    · exact absurd (by rw [hm]; simp) (hno cut)
    · cases m with
      | nil =>
        rw [List.nil_append, List.cons.injEq, Event.killed.injEq] at hm
        obtain ⟨rfl, -⟩ := hm
        rw [List.append_nil]
        rcases life_inExec hpc with ⟨hlife, hno⟩ | ⟨hlife, hat⟩
        · exact Or.inl ⟨hi.life true hlife, hno⟩
        · exact Or.inr ⟨hi.life false hlife, hat⟩
      | cons e m => simp at hm
  · cases m with
    | nil =>
      rw [List.nil_append] at hpost
      rcases hkill with hno | ⟨rfl, hpc⟩
      · exact absurd (by rw [← hpost]; simp) (hno cut)
      · rw [List.cons.injEq, Event.killed.injEq] at hpost
        obtain ⟨rfl, -⟩ := hpost
        rw [List.append_nil] at hm
        subst hm
        rcases life_inExec hpc with ⟨hlife, hno⟩ | ⟨hlife, hat⟩
        · exact Or.inl ⟨hi.life true hlife, hno⟩
        · exact Or.inr ⟨hi.life false hlife, hat⟩
    | cons e m =>
      rw [List.cons_append, List.cons.injEq] at hpost
      obtain ⟨rfl, -⟩ := hpost
      exact hi.kills pre cut m hm

theorem killInv_run {as : List Action} (h : run E (init X) as = some s) : KillInv s :=
  Lts.run_inv KillInv (fun _ _ _ hi hs => killInv_step hi hs)
    ⟨lifeInv_none rfl, fun pre cut post h => absurd h (by simp [init])⟩ h

theorem mem_cutsOf {log : List (Event X)} {cut : Pc} : cut ∈ cutsOf log ↔ .killed cut ∈ log := by
  unfold cutsOf
  rw [List.mem_filterMap]
  constructor
  · rintro ⟨e, he, hc⟩
    cases e with
    | killed pc => cases hc; exact he
    | _ => cases hc
  · intro h
    exact ⟨_, h, rfl⟩

/-- **Exactly when SIGKILL only reaches live processes.** In every run of a session: each SIGKILL was
sent while the process spawned last had not been reaped, if and only if no timeout fired while `exec`
was writing or flushing the exit frame of its command. -/
theorem killsLive_iff (X : Ext) (E : Env) (as : List Action) (s : State X) (h : run E (init X) as = some s) :
    KillsLive s.log ↔ ∀ cut ∈ cutsOf s.log, ¬ cut.AtExit := by
  have hi := killInv_run h
  constructor
  · intro hlive cut hcut
    obtain ⟨pre, post, heq⟩ := List.append_of_mem (mem_cutsOf.1 hcut)
    rcases hi.kills pre cut post heq with ⟨-, hno⟩ | ⟨hdead, -⟩
    · exact hno
    · rw [hlive pre cut post heq] at hdead
      cases hdead
  · intro hno pre cut post heq
    rcases hi.kills pre cut post heq with ⟨hlive, -⟩ | ⟨-, hat⟩
    · exact hlive
    · exact absurd hat (hno cut (mem_cutsOf.2 (by rw [heq]; simp)))

/-- The timeout kills a command that writes nothing. -/
theorem killsLive_silent : ∃ (as : List Action) (s : State Ext.sample), run sampleEnv (init Ext.sample) as = some s ∧
    cutsOf s.log = [.recv] ∧ KillsLive s.log := by
  obtain ⟨s, argv, hrun, hpc, -, sig, hlog⟩ := spawning_sample
  have hstep : step sampleEnv s .spawnOk = some (spawned s argv) := by simp [step, hpc]
  have hkill : step sampleEnv (spawned s argv) .timeout = some (timeout (spawned s argv)) := rfl
  have hall : run sampleEnv (init Ext.sample) (sampleActions ++ [.spawnOk, .timeout]) = some (timeout (spawned s argv)) := by
    refine Lts.run_append.2 ⟨s, hrun, ?_⟩
    exact Lts.run_cons.2 ⟨_, hstep, Lts.run_cons.2 ⟨_, hkill, rfl⟩⟩
  have hcuts : cutsOf (timeout (spawned s argv)).log = [.recv] := by
    simp only [timeout, spawned, beginWrite_log, emit_log, hlog]
    rfl
  refine ⟨_, _, hall, hcuts, (killsLive_iff Ext.sample sampleEnv _ _ hall).2 ?_⟩
  intro cut hcut
  rw [hcuts, List.mem_singleton] at hcut
  rw [hcut]
  exact id

/-- A command that ends at once, with the session in `write_frame` of its exit frame. -/
def reapedActions : List Action :=
  [.spawnOk, .child (.exit (some 0)), .child (.close .out), .child (.close .err), .child (.eof .out),
    .child (.eof .err), .recvNone, .waitOk, .timeout]

theorem run_reaped {argv : List Str} (hpc : s.pc = .spawning argv) : ∃ t, run E s reapedActions = some t ∧
    ∃ cut, t.log = s.log ++ [.spawned argv, .reaped] ++ [.killed cut] := by
  unfold reapedActions run
  simp [Lts.run, step, hpc, spawned, Child.step, Child.spawn, Child.pipe, Child.setPipe, Child.freshPipe,
    Child.sendersGone, waitOk, beginWrite_fits (exitFrame_fits _), Pc.inExec, timeout]

/-- **A kill of a reaped process**: nobody reads the exit frame of a command that has ended, and the
timeout fires. -/
theorem killed_reaped : ¬ ∀ (as : List Action) (s : State Ext.sample), run sampleEnv (init Ext.sample) as = some s →
    KillsLive s.log := by
  intro hall
  obtain ⟨s, argv, hrun, hpc, -⟩ := spawning_sample
  obtain ⟨t, hkill, cut, hlog⟩ := run_reaped (E := sampleEnv) hpc
  have hlive := hall _ t (Lts.run_append.2 ⟨s, hrun, hkill⟩) _ cut [] hlog
  rw [lifeOf_append] at hlive
  cases hlive

end Sao.Session
