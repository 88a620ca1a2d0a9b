import Mathlib.Data.List.Basic

/-!
# Runs of a labelled transition function

A system is a function `step : σ → α → Option σ`: in state `s` the action `a` is either not
enabled (`none`) or leads to the next state. Whoever chooses the actions is outside the system:
a scheduler, a peer, an operating system.

* `run_inv` — what every step preserves, every run preserves.
* `run_rel` — a reflexive and transitive relation between a state and its successors relates
  the two ends of every run.
* `run_inv_meets` — the invariant rule for runs whose steps all meet a condition.
* `run_length_le` — a measure that every step of a kind decreases bounds the length of a run of them.
* `run_to_end` — a system that can go on until it is done, and not for ever, can be done.
* `run_to_rest` — the same by actions of a kind, until none is enabled.
-/

namespace Lts

variable {σ α : Type}

/-- Perform a list of actions in order; `none` if one of them is not enabled. -/
def run (step : σ → α → Option σ) : σ → List α → Option σ
  | s, [] => some s
  | s, a :: as =>
    match step s a with
    | some s' => run step s' as
    | none => none

variable {step : σ → α → Option σ} {s s' t : σ} {a : α} {as bs : List α}

@[simp] theorem run_nil : run step s [] = some s := rfl

theorem run_cons : run step s (a :: as) = some t ↔ ∃ m, step s a = some m ∧ run step m as = some t := by
  simp only [run]
  cases h : step s a with
  | none => simp
  | some m => simp

theorem run_append : run step s (as ++ bs) = some t ↔ ∃ m, run step s as = some m ∧ run step m bs = some t := by
  induction as generalizing s with
  | nil => simp
  | cons a as ih =>
    simp only [List.cons_append, run_cons, ih]
    constructor
    · rintro ⟨m, h1, m', h2, h3⟩; exact ⟨m', ⟨m, h1, h2⟩, h3⟩
    · rintro ⟨m', ⟨m, h1, h2⟩, h3⟩; exact ⟨m, h1, m', h2, h3⟩

/-- The last action of a run. -/
theorem run_snoc : run step s (as ++ [a]) = some t ↔ ∃ m, run step s as = some m ∧ step m a = some t := by
  rw [run_append]
  constructor
  · rintro ⟨m, h1, h2⟩
    obtain ⟨m', h3, h4⟩ := run_cons.1 h2
    simp only [run_nil, Option.some.injEq] at h4
    exact ⟨m, h1, h4 ▸ h3⟩
  · rintro ⟨m, h1, h2⟩; exact ⟨m, h1, run_cons.2 ⟨t, h2, rfl⟩⟩

/-- **Invariant rule.** -/
theorem run_inv (I : σ → Prop) (hstep : ∀ s a s', I s → step s a = some s' → I s')
    (hs : I s) (h : run step s as = some t) : I t := by
  induction as generalizing s with
  | nil => simp only [run_nil, Option.some.injEq] at h; exact h ▸ hs
  | cons a as ih =>
    obtain ⟨m, h1, h2⟩ := run_cons.1 h
    exact ih (hstep s a m hs h1) h2

/-- Invariant rule under a condition on the actions. -/
theorem run_inv_of (P : α → Prop) (I : σ → Prop)
    (hstep : ∀ s a s', P a → I s → step s a = some s' → I s')
    (hP : ∀ a ∈ as, P a) (hs : I s) (h : run step s as = some t) : I t := by
  induction as generalizing s with
  | nil => simp only [run_nil, Option.some.injEq] at h; exact h ▸ hs
  | cons a as ih =>
    obtain ⟨m, h1, h2⟩ := run_cons.1 h
    exact ih (fun b hb => hP b (List.mem_cons_of_mem _ hb)) (hstep s a m (hP a List.mem_cons_self) hs h1) h2

/-- Every action of a run meets the condition in the state in which it is performed. -/
def Meets (step : σ → α → Option σ) (G : σ → α → Prop) : σ → List α → Prop
  | _, [] => True
  | s, a :: as => G s a ∧ ∀ s', step s a = some s' → Meets step G s' as

variable {G H : σ → α → Prop}

theorem Meets.mono (hGH : ∀ s a, G s a → H s a) (h : Meets step G s as) : Meets step H s as := by
  induction as generalizing s with
  | nil => trivial
  | cons a as ih => exact ⟨hGH s a h.1, fun s' hs => ih (h.2 s' hs)⟩

theorem Meets.and_forall {K : α → Prop} (h : Meets step G s as) (hK : ∀ a ∈ as, K a) :
    Meets step (fun s a => G s a ∧ K a) s as := by
  induction as generalizing s with
  | nil => trivial
  | cons a as ih =>
    exact ⟨⟨h.1, hK a List.mem_cons_self⟩, fun s' hs => ih (h.2 s' hs) fun b hb => hK b (List.mem_cons_of_mem _ hb)⟩

theorem Meets.append (h1 : Meets step G s as) (h2 : ∀ m, run step s as = some m → Meets step G m bs) :
    Meets step G s (as ++ bs) := by
  induction as generalizing s with
  | nil => exact h2 s rfl
  | cons a as ih =>
    refine ⟨h1.1, fun s' hs => ih (h1.2 s' hs) fun m hm => h2 m ?_⟩
    exact run_cons.2 ⟨s', hs, hm⟩

/-- So do the actions after a beginning of the run. -/
theorem Meets.suffix (h : Meets step G s (as ++ bs)) (hrun : run step s as = some t) : Meets step G t bs := by
  induction as generalizing s with
  | nil =>
    rw [run_nil, Option.some.injEq] at hrun
    exact hrun ▸ h
  | cons a as ih =>
    obtain ⟨m, hm, hrun⟩ := run_cons.1 hrun
    exact ih (h.2 m hm) hrun

/-- A condition on the actions alone. -/
theorem meets_of_forall (h : ∀ a ∈ as, ∀ s, G s a) : Meets step G s as := by
  induction as generalizing s with
  | nil => trivial
  | cons a as ih =>
    exact ⟨h a List.mem_cons_self s, fun s' _ => ih fun b hb => h b (List.mem_cons_of_mem _ hb)⟩

theorem forall_of_meets {Q : α → Prop} (h : Meets step (fun _ a => Q a) s as) (hrun : run step s as = some t) :
    ∀ a ∈ as, Q a := by
  induction as generalizing s with
  | nil => nofun
  | cons a as ih =>
    obtain ⟨m, hm, hrun⟩ := run_cons.1 hrun
    exact List.forall_mem_cons.2 ⟨h.1, ih (h.2 m hm) hrun⟩

/-- Invariant rule for the runs whose steps all meet a condition. -/
theorem run_inv_meets (I : σ → Prop) (hstep : ∀ s a s', G s a → I s → step s a = some s' → I s')
    (hG : Meets step G s as) (hs : I s) (h : run step s as = some t) : I t := by
  induction as generalizing s with
  | nil => simp only [run_nil, Option.some.injEq] at h; exact h ▸ hs
  | cons a as ih =>
    obtain ⟨m, h1, h2⟩ := run_cons.1 h
    exact ih (hG.2 m h1) (hstep s a m hG.1 hs h1) h2

/-- What relates a state to its successors relates the two ends of a run. -/
theorem run_rel (R : σ → σ → Prop) (hrefl : ∀ s, R s s) (htrans : ∀ s t u, R s t → R t u → R s u)
    (hstep : ∀ s a s', step s a = some s' → R s s') (h : run step s as = some t) : R s t := by
  induction as generalizing s with
  | nil => simp only [run_nil, Option.some.injEq] at h; exact h ▸ hrefl s
  | cons a as ih =>
    obtain ⟨m, h1, h2⟩ := run_cons.1 h
    exact htrans s m t (hstep s a m h1) (ih h2)

/-- A measure that every step under a condition decreases bounds the length of the runs of such steps. -/
theorem run_length_le (μ : σ → Nat) (hμ : ∀ s a s', G s a → step s a = some s' → μ s' < μ s)
    (hG : Meets step G s as) (h : run step s as = some t) : as.length + μ t ≤ μ s := by
  induction as generalizing s with
  | nil => simp only [run_nil, Option.some.injEq] at h; simp [h]
  | cons a as ih =>
    obtain ⟨m, h1, h2⟩ := run_cons.1 h
    have := ih (hG.2 m h1) h2
    have := hμ s a m hG.1 h1
    simp only [List.length_cons]
    omega

/-- What can go on as long as it is not done, and not for ever, can be done. -/
theorem run_to_end (I D : σ → Prop) (μ : σ → Nat) (hstep : ∀ s a s', G s a → I s → step s a = some s' → I s')
    (hμ : ∀ s a s', G s a → step s a = some s' → μ s' < μ s)
    (hgo : ∀ s, I s → ¬ D s → ∃ a s', G s a ∧ step s a = some s') (hs : I s) :
    ∃ as t, run step s as = some t ∧ Meets step G s as ∧ D t := by
  induction hn : μ s using Nat.strongRecOn generalizing s with
  | _ n ih =>
    by_cases hd : D s
    · exact ⟨[], s, rfl, trivial, hd⟩
    · obtain ⟨a, s', ha, hs'⟩ := hgo s hs hd
      obtain ⟨as, t, hrun, hmeets, ht⟩ := ih (μ s') (hn ▸ hμ s a s' ha hs') (hstep s a s' ha hs hs') rfl
      refine ⟨a :: as, t, run_cons.2 ⟨s', hs', hrun⟩, ⟨ha, fun u hu => ?_⟩, ht⟩
      rw [hs', Option.some.injEq] at hu
      exact hu ▸ hmeets

/-- No action of a kind is enabled. -/
def Rests (step : σ → α → Option σ) (Q : α → Prop) (s : σ) : Prop := ∀ a, Q a → step s a = none

/-- What cannot go on for ever by actions of a kind comes to rest by them. -/
theorem run_to_rest {Q : α → Prop} (μ : σ → Nat) (hμ : ∀ s a s', Q a → step s a = some s' → μ s' < μ s) (s : σ) :
    ∃ as t, run step s as = some t ∧ (∀ a ∈ as, Q a) ∧ Rests step Q t := by
  obtain ⟨as, t, hrun, hmeets, ht⟩ := run_to_end (G := fun _ a => Q a) (fun _ => True) (Rests step Q) μ
    (fun _ _ _ _ _ _ => trivial) hμ (fun s _ hmoves => by
      by_contra hnot
      refine hmoves fun a ha => ?_
      cases hs : step s a with
      | none => rfl
      | some s' => exact absurd ⟨a, s', ha, hs⟩ hnot) (s := s) trivial
  exact ⟨as, t, hrun, forall_of_meets hmeets hrun, ht⟩

end Lts
