import Sao.Lib.Lts

/-!
# One system seen through another

* `run_sim` — if every step is matched by a run of another system, and the two stay related, then so is every run.
* `run_view` — the case of a part of a system, which every step either leaves alone or moves by a step of its own.
* `meets_at` — every action of a run is performed in the state to which the actions before it lead.
* `guarded_run` — a run of the steps that pass a guard is a run whose steps all pass it.
-/

namespace Lts

variable {σ τ α β : Type} {step : σ → α → Option σ} {part : τ → β → Option τ} {s t : σ} {u : τ} {as : List α}
  {G : σ → α → Prop} {P : τ → β → Prop}

/-- **Simulation.** What matches a step may be any number of steps, also none. -/
theorem run_sim (R : σ → τ → Prop)
    (hstep : ∀ s a s' u, G s a → R s u → step s a = some s' →
      ∃ bs u', run part u bs = some u' ∧ Meets part P u bs ∧ R s' u')
    (hG : Meets step G s as) (hR : R s u) (h : run step s as = some t) :
    ∃ bs u', run part u bs = some u' ∧ Meets part P u bs ∧ R t u' := by
  induction as generalizing s u with
  | nil =>
    rw [run_nil, Option.some.injEq] at h
    exact ⟨[], u, rfl, trivial, h ▸ hR⟩
  | cons a as ih =>
    obtain ⟨m, hm, hrun⟩ := run_cons.1 h
    obtain ⟨bs, u', hbs, hP, hR'⟩ := hstep s a m u hG.1 hR hm
    obtain ⟨cs, u'', hcs, hP', hR''⟩ := ih (hG.2 m hm) hR' hrun
    refine ⟨bs ++ cs, u'', run_append.2 ⟨u', hbs, hcs⟩, hP.append fun v hv => ?_, hR''⟩
    rw [hbs, Option.some.injEq] at hv
    exact hv ▸ hP'

/-- **A part of a system** runs by itself, and stands still while the others run. -/
theorem run_view (view : σ → τ)
    (hstep : ∀ s a s', G s a → step s a = some s' →
      view s' = view s ∨ ∃ b, P (view s) b ∧ part (view s) b = some (view s'))
    (hG : Meets step G s as) (h : run step s as = some t) :
    ∃ bs, run part (view s) bs = some (view t) ∧ Meets part P (view s) bs := by
  have hmatch : ∀ s a s' u, G s a → u = view s → step s a = some s' →
      ∃ bs u', run part u bs = some u' ∧ Meets part P u bs ∧ u' = view s' := by
    rintro s a s' u hGa rfl hs
    rcases hstep s a s' hGa hs with hsame | ⟨b, hb, hpart⟩
    · exact ⟨[], view s, rfl, trivial, hsame.symm⟩
    · exact ⟨[b], view s', run_cons.2 ⟨view s', hpart, rfl⟩, ⟨hb, fun _ _ => trivial⟩, rfl⟩
  obtain ⟨bs, u', hrun, hP, rfl⟩ := run_sim (fun s u => u = view s) hmatch hG rfl h
  exact ⟨bs, hrun, hP⟩

/-- Where each action of a run is performed. -/
theorem meets_at (step : σ → α → Option σ) (s : σ) (as : List α) :
    Meets step (fun m a => ∃ pre post, as = pre ++ a :: post ∧ run step s pre = some m) s as := by
  induction as generalizing s with
  | nil => trivial
  | cons a as ih =>
    refine ⟨⟨[], as, rfl, rfl⟩, fun s' hs => (ih s').mono ?_⟩
    rintro m b ⟨pre, post, rfl, hrun⟩
    exact ⟨a :: pre, post, rfl, run_cons.2 ⟨s', hs, hrun⟩⟩

/-- The steps that pass a guard. -/
def guarded (G : σ → α → Prop) [∀ s a, Decidable (G s a)] (step : σ → α → Option σ) (s : σ) (a : α) : Option σ :=
  if G s a then step s a else none

theorem guarded_eq_some [∀ s a, Decidable (G s a)] {s' : σ} {a : α} :
    guarded G step s a = some s' ↔ G s a ∧ step s a = some s' := by
  unfold guarded
  split
  · rename_i hG
    exact ⟨fun h => ⟨hG, h⟩, fun h => h.2⟩
  · rename_i hG
    exact ⟨nofun, fun h => absurd h.1 hG⟩

theorem guarded_run [∀ s a, Decidable (G s a)] (h : run (guarded G step) s as = some t) :
    run step s as = some t ∧ Meets step G s as := by
  induction as generalizing s with
  | nil => exact ⟨h, trivial⟩
  | cons a as ih =>
    obtain ⟨m, hm, hrun⟩ := run_cons.1 h
    obtain ⟨hG, hs⟩ := guarded_eq_some.1 hm
    obtain ⟨hrun', hmeets⟩ := ih hrun
    refine ⟨run_cons.2 ⟨m, hs, hrun'⟩, hG, fun s' hs' => ?_⟩
    rw [hs, Option.some.injEq] at hs'
    exact hs' ▸ hmeets

/-- A condition on the steps of such a run is one on the steps of the system. -/
theorem guarded_meets [∀ s a, Decidable (G s a)] {H : σ → α → Prop} (h : run (guarded G step) s as = some t)
    (hH : Meets (guarded G step) H s as) : Meets step H s as := by
  induction as generalizing s with
  | nil => trivial
  | cons a as ih =>
    obtain ⟨m, hm, hrun⟩ := run_cons.1 h
    refine ⟨hH.1, fun s' hs' => ?_⟩
    rw [(guarded_eq_some.1 hm).2, Option.some.injEq] at hs'
    exact hs' ▸ ih hrun (hH.2 m hm)

end Lts
