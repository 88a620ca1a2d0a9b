import Sao.Lib.Prog

/-!
# Programs of one signature inside a larger one

A program written over the operations of one component runs among others over the operations of a
whole. An `Embedding` says how: each operation of the component is one of the whole, and an event
of the whole is read back as one of the component, or is none of its.

* `after_lift`, `after_lift_map` — a trace of the lifted program is one of the program, and nothing else
  happens in it.
* `after_bind_cases` — a trace of two programs in sequence ends in the first or divides between them.
* `run_part`, `run_event` — an environment of the whole that moves a part of its state by the component's own
  environment is seen by the component as that environment.
-/

namespace Prog

variable {Op Op' : Type} {Reply : Op → Type} {Reply' : Op' → Type} {ε ε' α β : Type}

structure Embedding (Reply : Op → Type) (Reply' : Op' → Type) where
  op : Op → Op'
  reply : (o : Op) → Reply' (op o) → Reply o
  /-- A reply of the whole that is read back as this one. -/
  forth : (o : Op) → Reply o → Reply' (op o)
  reply_forth : ∀ o r, reply o (forth o r) = r
  /-- The event of the component that an event of the whole is. -/
  back : Event Reply' → Option (Event Reply)
  back_op : ∀ o r, back ⟨op o, r⟩ = some ⟨o, reply o r⟩

/-- What the component has performed. -/
def Embedding.part (E : Embedding Reply Reply') (tr : List (Event Reply')) : List (Event Reply) := tr.filterMap E.back

/-- An event of the component among those of the whole. -/
def Embedding.event (E : Embedding Reply Reply') (e : Event Reply) : Event Reply' := ⟨E.op e.1, E.forth e.1 e.2⟩

def lift (E : Embedding Reply Reply') : Prog Op Reply ε α → Prog Op' Reply' ε α
  | .ret r => .ret r
  | .call o k => .call (E.op o) fun r => (k (E.reply o r)).lift E

variable [DecidableEq Op] [DecidableEq Op'] {E : Embedding Reply Reply'}

theorem after_lift {p : Prog Op Reply ε α} {q : Prog Op' Reply' ε α} {tr : List (Event Reply')}
    (h : (p.lift E).after tr = some q) :
    (∀ e ∈ tr, E.back e ≠ none) ∧ ∃ q₀, p.after (E.part tr) = some q₀ ∧ q = q₀.lift E := by
  induction tr generalizing p with
  | nil =>
    rw [after_nil, Option.some.injEq] at h
    exact ⟨nofun, p, after_nil p, h.symm⟩
  | cons e tr ih =>
    obtain ⟨o', k', r, hp, rfl, hk⟩ := after_cons h
    cases p with
    | ret r => cases hp
    | call o k =>
      cases hp
      obtain ⟨hback, q₀, hq, rfl⟩ := ih hk
      have hhead : E.back ⟨E.op o, r⟩ = some ⟨o, E.reply o r⟩ := E.back_op o r
      refine ⟨List.forall_mem_cons.2 ⟨by rw [hhead]; exact Option.some_ne_none _, hback⟩, q₀, ?_, rfl⟩
      rw [Embedding.part, List.filterMap_cons, hhead, after_call]
      exact hq

/-- Whatever the program does, it does as a part of the whole. -/
theorem after_lift_map {p q : Prog Op Reply ε α} {tr : List (Event Reply)} (h : p.after tr = some q) :
    (p.lift E).after (tr.map E.event) = some (q.lift E) := by
  induction tr generalizing p with
  | nil =>
    rw [after_nil, Option.some.injEq] at h
    rw [List.map_nil, after_nil, h]
  | cons e tr ih =>
    obtain ⟨o, k, r, rfl, rfl, hk⟩ := after_cons h
    rw [List.map_cons, lift, Embedding.event, after_call, E.reply_forth]
    exact ih hk

omit [DecidableEq Op] [DecidableEq Op'] in
theorem Embedding.part_append (tr tr' : List (Event Reply')) : E.part (tr ++ tr') = E.part tr ++ E.part tr' :=
  List.filterMap_append

omit [DecidableEq Op] [DecidableEq Op'] in
/-- A component that takes no part. -/
theorem Embedding.part_eq_nil {tr : List (Event Reply')} (h : ∀ e ∈ tr, E.back e = none) : E.part tr = [] :=
  List.filterMap_eq_nil_iff.2 h

omit [DecidableEq Op] in
theorem after_mapError_eq (p : Prog Op' Reply' ε α) (f : ε → ε') (tr : List (Event Reply')) :
    (p.mapError f).after tr = (p.after tr).map (mapError f) := by
  induction tr generalizing p with
  | nil => rw [after_nil, after_nil, Option.map_some]
  | cons e tr ih =>
    cases p with
    | ret r => rfl
    | call o k =>
      rw [mapError, after, after]
      split
      · exact ih _
      · rfl

omit [DecidableEq Op] [DecidableEq Op'] in
theorem mapError_eq_ok {p : Prog Op Reply ε α} {f : ε → ε'} {a : α} (h : p.mapError f = .ret (.ok a)) :
    p = .ret (.ok a) := by
  cases p with
  | call o k => cases h
  | ret r =>
    cases r with
    | error e => cases h
    | ok a' =>
      cases h
      rfl

omit [DecidableEq Op] in
theorem after_attempt_eq (p : Prog Op' Reply' ε α) (tr : List (Event Reply')) :
    (p.attempt : Prog Op' Reply' ε' (Except ε α)).after tr = (p.after tr).map attempt := by
  induction tr generalizing p with
  | nil => rw [after_nil, after_nil, Option.map_some]
  | cons e tr ih =>
    cases p with
    | ret r => rfl
    | call o k =>
      rw [attempt, after, after]
      split
      · exact ih _
      · rfl

omit [DecidableEq Op] in
/-- A trace of the first program, or one of both. -/
theorem after_bind_cases {p : Prog Op' Reply' ε α} {f : α → Prog Op' Reply' ε β} {q : Prog Op' Reply' ε β}
    {tr : List (Event Reply')} (h : (p >>= f).after tr = some q) :
    (∃ p', p.after tr = some p' ∧ q = p' >>= f) ∨
    ∃ tr₁ tr₂ a, tr = tr₁ ++ tr₂ ∧ p.after tr₁ = some (.ret (.ok a)) ∧ (f a).after tr₂ = some q := by
  induction tr generalizing p with
  | nil =>
    rw [after_nil, Option.some.injEq] at h
    exact Or.inl ⟨p, after_nil p, h.symm⟩
  | cons e tr ih =>
    cases p with
    | ret r =>
      cases r with
      | ok a => exact Or.inr ⟨[], e :: tr, a, rfl, rfl, h⟩
      | error err => cases h
    | call o k =>
      obtain ⟨o', k', r, hp, rfl, hk⟩ := after_cons h
      cases hp
      rcases ih hk with ⟨p', hp', hq⟩ | ⟨tr₁, tr₂, a, rfl, h₁, h₂⟩
      · exact Or.inl ⟨p', by rw [after_call, hp'], hq⟩
      · exact Or.inr ⟨⟨o, r⟩ :: tr₁, tr₂, a, rfl, by rw [after_call, h₁], h₂⟩

omit [DecidableEq Op] [DecidableEq Op'] in
theorem lift_eq_ret {p : Prog Op Reply ε α} {r : Except ε α} (h : p.lift E = .ret r) : p = .ret r := by
  cases p with
  | ret r' => exact congrArg Prog.ret (Prog.ret.inj h)
  | call o k => cases h

/-- **A component and what follows it**: it has not returned a value, or the trace divides where it did. -/
theorem after_lift_bind {p : Prog Op Reply ε α} {f : α → Prog Op' Reply' ε β} {q : Prog Op' Reply' ε β}
    {tr : List (Event Reply')} (h : (p.lift E >>= f).after tr = some q) :
    ((∀ e ∈ tr, E.back e ≠ none) ∧ ∃ q₀, p.after (E.part tr) = some q₀ ∧ (∀ a, q₀ ≠ .ret (.ok a)) ∧
      q = q₀.lift E >>= f) ∨
    ∃ tr₁ tr₂ a, tr = tr₁ ++ tr₂ ∧ (∀ e ∈ tr₁, E.back e ≠ none) ∧ p.after (E.part tr₁) = some (.ret (.ok a)) ∧
      (f a).after tr₂ = some q := by
  rcases after_bind_cases h with ⟨p', hp, rfl⟩ | ⟨tr₁, tr₂, a, rfl, hp, hq⟩
  · obtain ⟨honly, q₀, hq₀, rfl⟩ := after_lift hp
    by_cases hret : ∃ a, q₀ = .ret (.ok a)
    · obtain ⟨a, rfl⟩ := hret
      exact Or.inr ⟨tr, [], a, (List.append_nil tr).symm, honly, hq₀, after_nil _⟩
    · exact Or.inl ⟨honly, q₀, hq₀, fun a ha => hret ⟨a, ha⟩, rfl⟩
  · obtain ⟨honly, q₀, hq₀, hret⟩ := after_lift hp
    rw [lift_eq_ret hret.symm] at hq₀
    exact Or.inr ⟨tr₁, tr₂, a, rfl, honly, hq₀, hq⟩

omit [DecidableEq Op] [DecidableEq Op'] in
theorem lift_bind_ne_ok {p : Prog Op Reply ε α} (h : ∀ a, p ≠ .ret (.ok a)) (f : α → Prog Op' Reply' ε β) (b : β) :
    p.lift E >>= f ≠ .ret (.ok b) := by
  intro hb
  cases p with
  | call o k => cases hb
  | ret r =>
    cases r with
    | ok a => exact h a rfl
    | error e => cases hb

omit [DecidableEq Op] in
theorem after_ret {r : Except ε α} {q : Prog Op' Reply' ε α} {tr : List (Event Reply')}
    (h : (Prog.ret r).after tr = some q) : tr = [] ∧ q = .ret r := by
  cases tr with
  | cons e tr => cases h
  | nil =>
    rw [after_nil, Option.some.injEq] at h
    exact ⟨rfl, h.symm⟩

omit [DecidableEq Op] in
/-- One operation and what follows it. -/
theorem after_perform_bind {o : Op'} {g : Reply' o → Except ε α} {f : α → Prog Op' Reply' ε β}
    {q : Prog Op' Reply' ε β} {tr : List (Event Reply')} (h : (perform o g >>= f).after tr = some q) :
    (tr = [] ∧ q = perform o g >>= f) ∨ ∃ r tr', tr = ⟨o, r⟩ :: tr' ∧
      (.ret (g r) >>= f : Prog Op' Reply' ε β).after tr' = some q := by
  cases tr with
  | nil =>
    rw [after_nil, Option.some.injEq] at h
    exact Or.inl ⟨rfl, h.symm⟩
  | cons e tr =>
    obtain ⟨o', k, r, hp, rfl, hk⟩ := after_cons h
    cases hp
    exact Or.inr ⟨r, tr, rfl, hk⟩

omit [DecidableEq Op] [DecidableEq Op'] in
/-- **The environment of a component.** -/
theorem run_part {σ σ' : Type} {env : Event Reply → σ → Option σ} {env' : Event Reply' → σ' → Option σ'}
    (view : σ' → σ) (hother : ∀ e s s', E.back e = none → env' e s = some s' → view s' = view s)
    (hown : ∀ e e₀ s s', E.back e = some e₀ → env' e s = some s' → env e₀ (view s) = some (view s'))
    {tr : List (Event Reply')} {s t : σ'} (h : Lts.run (fun s e => env' e s) s tr = some t) :
    Lts.run (fun s e => env e s) (view s) (E.part tr) = some (view t) := by
  induction tr generalizing s with
  | nil =>
    rw [Lts.run_nil, Option.some.injEq] at h
    rw [h]
    rfl
  | cons e tr ih =>
    obtain ⟨m, hm, hrun⟩ := Lts.run_cons.1 h
    rw [Embedding.part, List.filterMap_cons]
    cases hback : E.back e with
    | none =>
      rw [← hother e s m hback hm]
      exact ih hrun
    | some e₀ => exact Lts.run_cons.2 ⟨view m, hown e e₀ s m hback hm, ih hrun⟩

omit [DecidableEq Op] [DecidableEq Op'] in
/-- A run of the component is one of the whole, which keeps the rest of its state. -/
theorem run_event {σ σ' : Type} {env : Event Reply → σ → Option σ} {env' : Event Reply' → σ' → Option σ'}
    (view : σ' → σ) (put : σ' → σ → σ') (hview : ∀ s t, view (put s t) = t) (hput : ∀ s t u, put (put s t) u = put s u)
    (hself : ∀ s, put s (view s) = s)
    (hown : ∀ e s t, env e (view s) = some t → env' (E.event e) s = some (put s t)) {tr : List (Event Reply)} {s : σ'}
    {t : σ} (h : Lts.run (fun s e => env e s) (view s) tr = some t) :
    Lts.run (fun s e => env' e s) s (tr.map E.event) = some (put s t) := by
  induction tr generalizing s with
  | nil =>
    rw [Lts.run_nil, Option.some.injEq] at h
    rw [List.map_nil, Lts.run_nil, ← h, hself]
  | cons e tr ih =>
    obtain ⟨m, hm, hrun⟩ := Lts.run_cons.1 h
    refine Lts.run_cons.2 ⟨put s m, hown e s m hm, ?_⟩
    rw [ih (by rw [hview]; exact hrun), hput]

end Prog
