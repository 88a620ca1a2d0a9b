import Mathlib.Data.List.Induction
import Mathlib.Logic.Function.Basic
import Sao.Lib.Lts

/-!
# Programs that call their environment

A program is a tree: it returns a value or an error, or performs an operation and goes on with
the reply. What the environment replies is not part of it. Over this, a logic: `Sat I Q p tr`
says that after the trace `tr`, however `p` is answered, every trace satisfies `I` and every
returned result satisfies `Q`.

* `sat_bind`, `sat_perform`, ... — the rules.
* `sat_after` — what is proved by the rules holds of every trace of the program.
* `exec_bind` — where each operation has one reply, a program runs to one result, piece by piece.
* `step_run` — a run against an environment with a state is a trace of both.
* `keeps_bind`, `keeps_perform`, ... and `keeps_after` — the same logic over the states of such an environment.
* `exec_run` — a run with one reply for each operation is one of every environment that allows them.
* `Pool.run_proj` — an interleaving of programs over one environment is a trace of each of them and
  of the environment.
-/

inductive Prog (Op : Type) (Reply : Op → Type) (ε α : Type) where
  | ret (r : Except ε α)
  | call (op : Op) (k : Reply op → Prog Op Reply ε α)

namespace Prog

variable {Op : Type} {Reply : Op → Type} {ε ε' α β : Type}

def bind (p : Prog Op Reply ε α) (f : α → Prog Op Reply ε β) : Prog Op Reply ε β :=
  match p with
  | .ret (.ok a) => f a
  | .ret (.error e) => .ret (.error e)
  | .call op k => .call op fun r => (k r).bind f

instance : Monad (Prog Op Reply ε) where
  pure a := .ret (.ok a)
  bind := bind

def throw (e : ε) : Prog Op Reply ε α := .ret (.error e)

/-- Perform one operation; what its reply means is up to `f`. -/
def perform (op : Op) (f : Reply op → Except ε α) : Prog Op Reply ε α := .call op fun r => .ret (f r)

def mapError (f : ε → ε') : Prog Op Reply ε α → Prog Op Reply ε' α
  | .ret r => .ret (r.mapError f)
  | .call op k => .call op fun r => (k r).mapError f

/-- The result of `p` as a value, errors included. -/
def attempt : Prog Op Reply ε α → Prog Op Reply ε' (Except ε α)
  | .ret r => .ret (.ok r)
  | .call op k => .call op fun r => (k r).attempt

/-! ## Traces -/

/-- One performed operation with its reply. -/
abbrev Event (Reply : Op → Type) : Type := Sigma Reply

variable [DecidableEq Op]

/-- What is left of the program after it has performed a list of events. -/
def after : Prog Op Reply ε α → List (Event Reply) → Option (Prog Op Reply ε α)
  | p, [] => some p
  | .ret _, _ :: _ => none
  | .call op k, ⟨op', r⟩ :: tr => if h : op' = op then (k (h ▸ r)).after tr else none

@[simp] theorem after_nil (p : Prog Op Reply ε α) : p.after [] = some p := by cases p <;> rfl

@[simp] theorem after_call (op : Op) (k : Reply op → Prog Op Reply ε α) (r : Reply op) (tr : List (Event Reply)) :
    (Prog.call op k).after (⟨op, r⟩ :: tr) = (k r).after tr := by
  rw [after, dif_pos rfl]

theorem after_cons {p q : Prog Op Reply ε α} {e : Event Reply} {tr : List (Event Reply)}
    (h : p.after (e :: tr) = some q) :
    ∃ op k r, p = .call op k ∧ e = ⟨op, r⟩ ∧ (k r).after tr = some q := by
  cases p with
  | ret r => cases h
  | call op k =>
    obtain ⟨op', r⟩ := e
    rw [after] at h
    split at h
    · rename_i he
      subst he
      exact ⟨op', k, r, rfl, rfl, h⟩
    · cases h

theorem after_append {p q : Prog Op Reply ε α} {tr tr' : List (Event Reply)} :
    p.after (tr ++ tr') = some q ↔ ∃ m, p.after tr = some m ∧ m.after tr' = some q := by
  induction tr generalizing p with
  | nil => simp
  | cons e tr ih =>
    constructor
    · intro h
      obtain ⟨op, k, r, rfl, rfl, hk⟩ := after_cons h
      obtain ⟨m, hm, hq⟩ := ih.1 hk
      exact ⟨m, by rw [after_call, hm], hq⟩
    · rintro ⟨m, hm, hq⟩
      obtain ⟨op, k, r, rfl, rfl, hk⟩ := after_cons hm
      rw [List.cons_append, after_call]
      exact ih.2 ⟨m, hk, hq⟩

theorem after_cons_iff {p q : Prog Op Reply ε α} {e : Event Reply} {tr : List (Event Reply)} :
    p.after (e :: tr) = some q ↔ ∃ m, p.after [e] = some m ∧ m.after tr = some q := by
  rw [← List.singleton_append, after_append]

/-- A program that returns a value hands over to the next one. -/
theorem after_bind {p : Prog Op Reply ε α} {f : α → Prog Op Reply ε β} {a : α} {tr tr' : List (Event Reply)}
    (h : p.after tr = some (.ret (.ok a))) : (p >>= f).after (tr ++ tr') = (f a).after tr' := by
  induction tr generalizing p with
  | nil =>
    rw [after_nil, Option.some.injEq] at h
    subst h
    rfl
  | cons e tr ih =>
    obtain ⟨op, k, r, rfl, rfl, hk⟩ := after_cons h
    show (Prog.call op fun r => (k r).bind f).after _ = _
    rw [List.cons_append, after_call]
    exact ih hk

/-- An error ends both. -/
theorem after_bind_error {p : Prog Op Reply ε α} {f : α → Prog Op Reply ε β} {e : ε} {tr : List (Event Reply)}
    (h : p.after tr = some (.ret (.error e))) : (p >>= f).after tr = some (.ret (.error e)) := by
  induction tr generalizing p with
  | nil =>
    rw [after_nil, Option.some.injEq] at h
    subst h
    rfl
  | cons ev tr ih =>
    obtain ⟨op, k, r, rfl, rfl, hk⟩ := after_cons h
    show (Prog.call op fun r => (k r).bind f).after _ = _
    rw [after_call]
    exact ih hk

theorem after_perform (op : Op) (f : Reply op → Except ε α) (r : Reply op) :
    (perform op f).after [⟨op, r⟩] = some (.ret (f r)) := by
  rw [perform, after_call, after_nil]

theorem after_mapError {p : Prog Op Reply ε α} {f : ε → ε'} {r : Except ε α} {tr : List (Event Reply)}
    (h : p.after tr = some (.ret r)) : (p.mapError f).after tr = some (.ret (r.mapError f)) := by
  induction tr generalizing p with
  | nil =>
    rw [after_nil, Option.some.injEq] at h
    subst h
    rfl
  | cons e tr ih =>
    obtain ⟨op, k, r', rfl, rfl, hk⟩ := after_cons h
    rw [mapError, after_call]
    exact ih hk

theorem after_attempt {p : Prog Op Reply ε α} {r : Except ε α} {tr : List (Event Reply)}
    (h : p.after tr = some (.ret r)) : (p.attempt : Prog Op Reply ε' _).after tr = some (.ret (.ok r)) := by
  induction tr generalizing p with
  | nil =>
    rw [after_nil, Option.some.injEq] at h
    subst h
    rfl
  | cons e tr ih =>
    obtain ⟨op, k, r', rfl, rfl, hk⟩ := after_cons h
    rw [attempt, after_call]
    exact ih hk

/-! ## The logic -/

variable (I : List (Event Reply) → Prop)

def Sat (Q : Except ε α → List (Event Reply) → Prop) : Prog Op Reply ε α → List (Event Reply) → Prop
  | .ret r, tr => I tr ∧ Q r tr
  | .call op k, tr => I tr ∧ ∀ r, Sat Q (k r) (tr ++ [⟨op, r⟩])

variable {I} {p : Prog Op Reply ε α} {tr : List (Event Reply)}

omit [DecidableEq Op] in
theorem Sat.inv {Q : Except ε α → List (Event Reply) → Prop} (h : Sat I Q p tr) : I tr := by
  cases p with
  | ret r => exact h.1
  | call op k => exact h.1

omit [DecidableEq Op] in
theorem Sat.mono {Q Q' : Except ε α → List (Event Reply) → Prop} (h : Sat I Q p tr)
    (hQ : ∀ r tr', I tr' → Q r tr' → Q' r tr') : Sat I Q' p tr := by
  induction p generalizing tr with
  | ret r => exact ⟨h.1, hQ r tr h.1 h.2⟩
  | call op k ih => exact ⟨h.1, fun r => ih r (h.2 r)⟩

omit [DecidableEq Op] in
theorem sat_pure {Q : Except ε α → List (Event Reply) → Prop} {a : α} (hI : I tr) (hQ : Q (.ok a) tr) :
    Sat I Q (pure a) tr := ⟨hI, hQ⟩

omit [DecidableEq Op] in
theorem sat_ret {Q : Except ε α → List (Event Reply) → Prop} {r : Except ε α} (hI : I tr) (hQ : Q r tr) :
    Sat I Q (.ret r) tr := ⟨hI, hQ⟩

omit [DecidableEq Op] in
theorem sat_perform {Q : Except ε α → List (Event Reply) → Prop} {op : Op} {f : Reply op → Except ε α} (hI : I tr)
    (h : ∀ r, I (tr ++ [⟨op, r⟩]) ∧ Q (f r) (tr ++ [⟨op, r⟩])) : Sat I Q (perform op f) tr := ⟨hI, h⟩

omit [DecidableEq Op] in
/-- **Sequencing.** -/
theorem sat_bind {Q : Except ε β → List (Event Reply) → Prop} {f : α → Prog Op Reply ε β}
    (h : Sat I (fun r tr' => match r with
      | .ok a => Sat I Q (f a) tr'
      | .error e => Q (.error e) tr') p tr) : Sat I Q (p >>= f) tr := by
  induction p generalizing tr with
  | ret r =>
    cases r with
    | ok a => exact h.2
    | error e => exact h
  | call op k ih => exact ⟨h.1, fun r => ih r (h.2 r)⟩

omit [DecidableEq Op] in
theorem sat_mapError {Q : Except ε' α → List (Event Reply) → Prop} {f : ε → ε'}
    (h : Sat I (fun r => Q (r.mapError f)) p tr) : Sat I Q (p.mapError f) tr := by
  induction p generalizing tr with
  | ret r => exact h
  | call op k ih => exact ⟨h.1, fun r => ih r (h.2 r)⟩

omit [DecidableEq Op] in
theorem sat_attempt {Q : Except ε' (Except ε α) → List (Event Reply) → Prop}
    (h : Sat I (fun r => Q (.ok r)) p tr) : Sat I Q (p.attempt) tr := by
  induction p generalizing tr with
  | ret r => exact h
  | call op k ih => exact ⟨h.1, fun r => ih r (h.2 r)⟩

/-- **Adequacy**: after any events, the invariant holds, and the postcondition of a result. -/
theorem sat_after {Q : Except ε α → List (Event Reply) → Prop} {q : Prog Op Reply ε α} {tr' : List (Event Reply)}
    (h : Sat I Q p tr) (hq : p.after tr' = some q) : Sat I Q q (tr ++ tr') := by
  induction tr' generalizing p tr with
  | nil =>
    rw [after_nil, Option.some.injEq] at hq
    rw [List.append_nil, ← hq]
    exact h
  | cons e tr' ih =>
    obtain ⟨op, k, r, rfl, rfl, hk⟩ := after_cons hq
    have := ih (h.2 r) hk
    rwa [List.append_assoc] at this

/-! ## Execution -/

section Exec

variable {σ : Type} (serve : (op : Op) → σ → σ × Reply op)

/-- The run of a program where every operation has one reply, which depends on a state. -/
def exec : Prog Op Reply ε α → σ → σ × Except ε α
  | .ret r, s => (s, r)
  | .call op k, s => (k (serve op s).2).exec (serve op s).1

/-- What is performed in that run. -/
def events : Prog Op Reply ε α → σ → List (Event Reply)
  | .ret _, _ => []
  | .call op k, s => ⟨op, (serve op s).2⟩ :: (k (serve op s).2).events (serve op s).1

omit [DecidableEq Op] in
theorem exec_bind (p : Prog Op Reply ε α) (f : α → Prog Op Reply ε β) (s : σ) :
    (p >>= f).exec serve s = match p.exec serve s with
      | (s', .ok a) => (f a).exec serve s'
      | (s', .error e) => (s', .error e) := by
  induction p generalizing s with
  | ret r =>
    cases r with
    | error e => rfl
    | ok a => rfl
  | call op k ih => exact ih _ _

omit [DecidableEq Op] in
theorem exec_mapError (p : Prog Op Reply ε α) (f : ε → ε') (s : σ) :
    (p.mapError f).exec serve s = ((p.exec serve s).1, (p.exec serve s).2.mapError f) := by
  induction p generalizing s with
  | ret r => rfl
  | call op k ih => exact ih _ _

end Exec

/-! ## Environments with a state -/

section Environment

variable {σ : Type} (env : (e : Event Reply) → σ → Option σ)

/-- The next operation is performed, when the environment has this reply for it. -/
def step (s : Prog Op Reply ε α × σ) (e : Event Reply) : Option (Prog Op Reply ε α × σ) :=
  match s.1.after [e], env e s.2 with
  | some p, some t => some (p, t)
  | _, _ => none

variable {env}

/-- **A run is a trace of the program and of the environment.** -/
theorem step_run {p q : Prog Op Reply ε α} {s t : σ} {tr : List (Event Reply)} :
    Lts.run (step env) (p, s) tr = some (q, t) ↔
      p.after tr = some q ∧ Lts.run (fun s e => env e s) s tr = some t := by
  induction tr generalizing p s with
  | nil => simp
  | cons e tr ih =>
    rw [Lts.run_cons, Lts.run_cons]
    constructor
    · rintro ⟨⟨p', s'⟩, hstep, hrun⟩
      obtain ⟨hq, ht⟩ := ih.1 hrun
      unfold step at hstep
      split at hstep
      · rename_i hp hs
        cases hstep
        exact ⟨after_cons_iff.2 ⟨p', hp, hq⟩, s', hs, ht⟩
      · cases hstep
    · rintro ⟨hq, s', hs, ht⟩
      obtain ⟨p', hp, hq⟩ := after_cons_iff.1 hq
      exact ⟨(p', s'), by simp only [step, hp, hs], ih.2 ⟨hq, ht⟩⟩

/-! ## The logic over an environment -/

variable (env)

/-- However the environment answers, as long as its answers meet `G`, its state keeps `J`, and every
returned result satisfies `Q`. -/
def Keeps (G : σ → Event Reply → Prop) (J : σ → Prop) (Q : Except ε α → σ → Prop) : Prog Op Reply ε α → σ → Prop
  | .ret r, s => J s ∧ Q r s
  | .call op k, s => J s ∧ ∀ r s', G s ⟨op, r⟩ → env ⟨op, r⟩ s = some s' → Keeps G J Q (k r) s'

variable {env} {G : σ → Event Reply → Prop} {J : σ → Prop} {s : σ} {p : Prog Op Reply ε α}

omit [DecidableEq Op] in
theorem Keeps.inv {Q : Except ε α → σ → Prop} (h : Keeps env G J Q p s) : J s := by
  cases p with
  | ret r => exact h.1
  | call op k => exact h.1

omit [DecidableEq Op] in
/-- A specification serves where a weaker invariant and a weaker postcondition are asked for. -/
theorem Keeps.mono {J' : σ → Prop} {Q Q' : Except ε α → σ → Prop} (h : Keeps env G J Q p s)
    (hJ : ∀ s', J s' → J' s') (hQ : ∀ r s', J s' → Q r s' → Q' r s') : Keeps env G J' Q' p s := by
  induction p generalizing s with
  | ret r => exact ⟨hJ s h.1, hQ r s h.1 h.2⟩
  | call op k ih => exact ⟨hJ s h.1, fun r s' hG hs => ih r (h.2 r s' hG hs)⟩

omit [DecidableEq Op] in
/-- So it does where fewer answers are allowed. -/
theorem Keeps.mono_guard {G' : σ → Event Reply → Prop} {Q : Except ε α → σ → Prop} (h : Keeps env G J Q p s)
    (hG : ∀ s e, G' s e → G s e) : Keeps env G' J Q p s := by
  induction p generalizing s with
  | ret r => exact h
  | call op k ih => exact ⟨h.1, fun r s' hr hs => ih r (h.2 r s' (hG _ _ hr) hs)⟩

omit [DecidableEq Op] in
theorem keeps_ret {Q : Except ε α → σ → Prop} {r : Except ε α} (hJ : J s) (hQ : Q r s) :
    Keeps env G J Q (.ret r) s := ⟨hJ, hQ⟩

omit [DecidableEq Op] in
theorem keeps_perform {Q : Except ε α → σ → Prop} {op : Op} {f : Reply op → Except ε α} (hJ : J s)
    (h : ∀ r s', G s ⟨op, r⟩ → env ⟨op, r⟩ s = some s' → J s' ∧ Q (f r) s') : Keeps env G J Q (perform op f) s :=
  ⟨hJ, h⟩

omit [DecidableEq Op] in
/-- **Sequencing.** -/
theorem keeps_bind {Q : Except ε β → σ → Prop} {f : α → Prog Op Reply ε β}
    (h : Keeps env G J (fun r s' => match r with
      | .ok a => Keeps env G J Q (f a) s'
      | .error e => Q (.error e) s') p s) : Keeps env G J Q (p >>= f) s := by
  induction p generalizing s with
  | ret r =>
    cases r with
    | ok a => exact h.2
    | error e => exact h
  | call op k ih => exact ⟨h.1, fun r s' hG hs => ih r (h.2 r s' hG hs)⟩

omit [DecidableEq Op] in
theorem keeps_mapError {Q : Except ε' α → σ → Prop} {f : ε → ε'}
    (h : Keeps env G J (fun r => Q (r.mapError f)) p s) : Keeps env G J Q (p.mapError f) s := by
  induction p generalizing s with
  | ret r => exact h
  | call op k ih => exact ⟨h.1, fun r s' hG hs => ih r (h.2 r s' hG hs)⟩

/-- **Adequacy**: wherever the run of a program and its environment has got to, the rest of it keeps on. -/
theorem keeps_after {Q : Except ε α → σ → Prop} {q : Prog Op Reply ε α} {t : σ} {tr : List (Event Reply)}
    (h : Keeps env G J Q p s) (hG : Lts.Meets (fun s e => env e s) G s tr) (hp : p.after tr = some q)
    (ht : Lts.run (fun s e => env e s) s tr = some t) : Keeps env G J Q q t := by
  induction tr generalizing p s with
  | nil =>
    rw [after_nil, Option.some.injEq] at hp
    rw [Lts.run_nil, Option.some.injEq] at ht
    rw [← hp, ← ht]
    exact h
  | cons e tr ih =>
    obtain ⟨op, k, r, rfl, rfl, hk⟩ := after_cons hp
    obtain ⟨s', hs', hrun⟩ := Lts.run_cons.1 ht
    exact ih (h.2 r s' hG.1 hs') (hG.2 s' hs') hk hrun

/-! ## Where each operation has one reply -/

variable {serve : (op : Op) → σ → σ × Reply op}

/-- Such a run is one of every environment that allows those replies. -/
theorem exec_run (hserve : ∀ op s, env ⟨op, (serve op s).2⟩ s = some (serve op s).1 ∧ G s ⟨op, (serve op s).2⟩)
    (p : Prog Op Reply ε α) (s : σ) : p.after (p.events serve s) = some (.ret (p.exec serve s).2) ∧
      Lts.run (fun s e => env e s) s (p.events serve s) = some (p.exec serve s).1 ∧
      Lts.Meets (fun s e => env e s) G s (p.events serve s) := by
  induction p generalizing s with
  | ret r => exact ⟨rfl, rfl, trivial⟩
  | call op k ih =>
    obtain ⟨hp, hrun, hmeets⟩ := ih (serve op s).2 (serve op s).1
    obtain ⟨henv, hG⟩ := hserve op s
    refine ⟨by rw [events, after_call]; exact hp, Lts.run_cons.2 ⟨_, henv, hrun⟩, hG, fun s' hs' => ?_⟩
    have hs : (serve op s).1 = s' := Option.some.inj (henv.symm.trans hs')
    exact hs ▸ hmeets

end Environment

end Prog

/-! ## Interleavings -/

/-- Programs over one environment; `log` is what they have performed so far. -/
structure Pool (ι Op : Type) (Reply : Op → Type) (ε α σ : Type) where
  procs : ι → Prog Op Reply ε α
  shared : σ
  log : List (ι × Prog.Event Reply)

namespace Pool

variable {ι Op : Type} {Reply : Op → Type} {ε α σ : Type} [DecidableEq ι] [DecidableEq Op]

def start (procs : ι → Prog Op Reply ε α) (s : σ) : Pool ι Op Reply ε α σ := ⟨procs, s, []⟩

/-- The program `i` performs its next operation. -/
def step (env : (e : Prog.Event Reply) → σ → Option σ) (s : Pool ι Op Reply ε α σ) (a : ι × Prog.Event Reply) :
    Option (Pool ι Op Reply ε α σ) :=
  match (s.procs a.1).after [a.2], env a.2 s.shared with
  | some p, some t => some ⟨Function.update s.procs a.1 p, t, s.log ++ [a]⟩
  | _, _ => none

/-- What one program has performed. -/
def proj (i : ι) (log : List (ι × Prog.Event Reply)) : List (Prog.Event Reply) :=
  log.filterMap fun a => if a.1 = i then some a.2 else none

omit [DecidableEq Op] in
@[simp] theorem proj_nil (i : ι) : proj i ([] : List (ι × Prog.Event Reply)) = [] := rfl

omit [DecidableEq Op] in
theorem proj_append (i : ι) (log log' : List (ι × Prog.Event Reply)) :
    proj i (log ++ log') = proj i log ++ proj i log' := List.filterMap_append

omit [DecidableEq Op] in
theorem proj_singleton (i j : ι) (e : Prog.Event Reply) : proj i [(j, e)] = if j = i then [e] else [] := by
  by_cases h : j = i
  · simp [proj, h]
  · simp [proj, h]

variable {env : (e : Prog.Event Reply) → σ → Option σ}

/-- **A run of a pool**: each program performs a trace of its own, and the environment all of them. -/
theorem run_proj {procs : ι → Prog Op Reply ε α} {s₀ : σ} {s : Pool ι Op Reply ε α σ}
    {as : List (ι × Prog.Event Reply)} : Lts.run (step env) (start procs s₀) as = some s ↔
      s.log = as ∧ (∀ i, (procs i).after (proj i as) = some (s.procs i)) ∧
        Lts.run (fun s (a : ι × Prog.Event Reply) => env a.2 s) s₀ as = some s.shared := by
  induction as using List.reverseRecOn generalizing s with
  | nil =>
    rw [Lts.run_nil, Option.some.injEq]
    constructor
    · rintro rfl
      exact ⟨rfl, fun i => Prog.after_nil _, rfl⟩
    · rintro ⟨hlog, hprocs, hshared⟩
      obtain ⟨q, t, log⟩ := s
      have hq : procs = q := funext fun i => by simpa using hprocs i
      rw [Lts.run_nil, Option.some.injEq] at hshared
      subst hq hlog hshared
      rfl
  | append_singleton as a ih =>
    obtain ⟨j, e⟩ := a
    have hproj : ∀ i, proj i (as ++ [(j, e)]) = proj i as ++ if j = i then [e] else [] := fun i => by
      rw [proj_append, proj_singleton]
    rw [Lts.run_snoc]
    constructor
    · rintro ⟨m, hm, hstep⟩
      obtain ⟨hlog, hprocs, hshared⟩ := ih.1 hm
      unfold step at hstep
      split at hstep
      · rename_i p t hp ht
        cases hstep
        refine ⟨by rw [hlog], fun i => ?_, Lts.run_snoc.2 ⟨m.shared, hshared, ht⟩⟩
        show (procs i).after (proj i (as ++ [(j, e)])) = some (Function.update m.procs j p i)
        rw [hproj]
        by_cases hij : j = i
        · subst hij
          rw [if_pos rfl, Function.update_self]
          exact Prog.after_append.2 ⟨m.procs j, hprocs j, hp⟩
        · rw [if_neg hij, List.append_nil, Function.update_of_ne (Ne.symm hij)]
          exact hprocs i
      · cases hstep
    · rintro ⟨hlog, hprocs, hshared⟩
      obtain ⟨q, t, log⟩ := s
      obtain ⟨t', hrun, ht⟩ := Lts.run_snoc.1 hshared
      have hj := hprocs j
      rw [hproj, if_pos rfl, Prog.after_append] at hj
      obtain ⟨p, hp, hq⟩ := hj
      -- Before the last event, the program `j` is where its own trace has led it.
      refine ⟨⟨Function.update q j p, t', as⟩, ih.2 ⟨rfl, fun i => ?_, hrun⟩, ?_⟩
      · show _ = some (Function.update q j p i)
        by_cases hij : j = i
        · subst hij
          rw [Function.update_self, hp]
        · have hi := hprocs i
          rw [hproj, if_neg hij, List.append_nil] at hi
          rw [Function.update_of_ne (Ne.symm hij), hi]
      · subst hlog
        simp only [step, Function.update_self, hq, ht, Function.update_idem, Function.update_eq_self]

end Pool
