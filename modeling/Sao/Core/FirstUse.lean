import Sao.Core.AgentKey
import Sao.Core.Reference

/-!
# Clients that use one key for the first time

Any number of processes call `load_or_create_signing_key` for the same path. Each operation is one
step; those that fail leave the files as they were. Whoever finds no private file draws a key and
writes it, without looking again.

* `first_use` — whoever succeeds returns a key that was written to the private file. Where that is
  written only once, all return the same key, and the files hold its two halves.
* `first_use_crossed` — two processes that both look before either writes have two keys.
-/

namespace Sao.AgentKey

open Text Prog

/-! ## The files -/

/-- What an operation does when it is answered so, if the files allow the answer. `exists` is `false` also
where it fails. -/
def answer : Event Op.Reply → KeyFiles → Option KeyFiles
  | ⟨.pathExists, found⟩, f => if found = true ∧ f.privateKey = none then none else some f
  | ⟨.readToString, .ok s⟩, f => if f.privateKey = some s then some f else none
  | ⟨.readToString, .error _⟩, f => some f
  | ⟨.createDirAll, _⟩, f => some f
  | ⟨.draw, _⟩, f => some f
  | ⟨.write body, .ok ()⟩, f => some { f with privateKey := some body }
  | ⟨.write _, .error _⟩, f => some f
  | ⟨.writePub body, .ok ()⟩, f => some { f with publicKey := some body }
  | ⟨.writePub _, .error _⟩, f => some f

def written : Event Op.Reply → Option Str
  | ⟨.write body, .ok ()⟩ => some body
  | _ => none

def published : Event Op.Reply → Option Str
  | ⟨.writePub body, .ok ()⟩ => some body
  | _ => none

theorem answer_files {e : Event Op.Reply} {f f' : KeyFiles} (h : answer e f = some f') :
    f' = ⟨(written e).or f.privateKey, (published e).or f.publicKey⟩ := by
  unfold answer at h
  split at h
  -- `exists` and `read_to_string` are not always allowed.
  · split at h
    · cases h
    · cases h
      rfl
  · split at h
    · cases h
      rfl
    · cases h
  all_goals
    cases h
    rfl

theorem answer_read {s : Str} {f f' : KeyFiles} (h : answer ⟨.readToString, .ok s⟩ f = some f') :
    f.privateKey = some s := by
  simp only [answer] at h
  split at h
  · assumption
  · cases h

variable {ι : Type}

/-- What all processes have performed, in order. -/
abbrev Log (ι : Type) := List (ι × Event Op.Reply)

/-- The bodies written to the private file, in order. -/
def privateWrites (log : Log ι) : List Str := log.filterMap fun a => written a.2

def publicWrites (log : Log ι) : List Str := log.filterMap fun a => published a.2

theorem written_eq_some {e : Event Op.Reply} {body : Str} : written e = some body ↔ e = ⟨.write body, .ok ()⟩ := by
  constructor
  · intro h
    unfold written at h
    split at h
    · rw [Option.some.injEq] at h
      rw [h]
    · cases h
  · rintro rfl
    rfl

theorem published_eq_some {e : Event Op.Reply} {body : Str} :
    published e = some body ↔ e = ⟨.writePub body, .ok ()⟩ := by
  constructor
  · intro h
    unfold published at h
    split at h
    · rw [Option.some.injEq] at h
      rw [h]
    · cases h
  · rintro rfl
    rfl

theorem mem_privateWrites {log : Log ι} {body : Str} :
    body ∈ privateWrites log ↔ ∃ i, (i, ⟨.write body, .ok ()⟩) ∈ log := by
  simp only [privateWrites, List.mem_filterMap, Prod.exists, written_eq_some, exists_eq_right]

theorem mem_publicWrites {log : Log ι} {body : Str} :
    body ∈ publicWrites log ↔ ∃ i, (i, ⟨.writePub body, .ok ()⟩) ∈ log := by
  simp only [publicWrites, List.mem_filterMap, Prod.exists, published_eq_some, exists_eq_right]

theorem getLast?_filterMap_concat {α β : Type} (f : α → Option β) (l : List α) (a : α) :
    ((l ++ [a]).filterMap f).getLast? = (f a).or (l.filterMap f).getLast? := by
  rw [List.filterMap_append, List.getLast?_append, List.filterMap_cons]
  cases f a with
  | none => rfl
  | some b => rfl

/-- **The files hold what was written last**, and what was read was written before. -/
theorem run_answer {pub : Option Str} {log : Log ι} {f : KeyFiles}
    (h : Lts.run (fun f (a : ι × Event Op.Reply) => answer a.2 f) ⟨none, pub⟩ log = some f) :
    f = ⟨(privateWrites log).getLast?, (publicWrites log).getLast?.or pub⟩ ∧
      ∀ i s, (i, ⟨.readToString, .ok s⟩) ∈ log → s ∈ privateWrites log := by
  induction log using List.reverseRecOn generalizing f with
  | nil =>
    rw [Lts.run_nil, Option.some.injEq] at h
    exact ⟨h.symm, fun i s hs => (by cases hs)⟩
  | append_singleton log a ih =>
    obtain ⟨f₁, hrun, ha⟩ := Lts.run_snoc.1 h
    obtain ⟨rfl, hread⟩ := ih hrun
    obtain rfl := answer_files ha
    constructor
    · have hpriv : (privateWrites (log ++ [a])).getLast? = (written a.2).or (privateWrites log).getLast? :=
        getLast?_filterMap_concat _ _ _
      have hpub : (publicWrites (log ++ [a])).getLast? = (published a.2).or (publicWrites log).getLast? :=
        getLast?_filterMap_concat _ _ _
      rw [hpriv, hpub, Option.or_assoc]
    · intro i s hmem
      rw [privateWrites, List.filterMap_append]
      apply List.mem_append_left
      rcases List.mem_append.1 hmem with hmem | hmem
      · exact hread i s hmem
      · rw [List.mem_singleton] at hmem
        subst hmem
        exact List.mem_of_getLast? (answer_read ha)

/-! ## One process -/

variable (X : Ext)

/-- The process has written the key, or read it. -/
def Obtained (tr : List (Event Op.Reply)) (key : ByteArr 32) : Prop :=
  ⟨.write (privateBody key), .ok ()⟩ ∈ tr ∨ ∃ s, ⟨.readToString, .ok s⟩ ∈ tr ∧ keyOfLines X (lines s) = .ok key

/-- What a process writes is a key, and the public half of a key it has obtained. -/
structure WritesKeys (tr : List (Event Op.Reply)) : Prop where
  priv : ∀ body r, ⟨.write body, r⟩ ∈ tr → ∃ key, body = privateBody key
  pub : ∀ body r, ⟨.writePub body, r⟩ ∈ tr → ∃ key, Obtained X tr key ∧ body = publicBody (X.verifyingKey key)

variable {X} {tr : List (Event Op.Reply)}

theorem Obtained.snoc {key : ByteArr 32} (h : Obtained X tr key) (e : Event Op.Reply) : Obtained X (tr ++ [e]) key := by
  rcases h with h | ⟨s, h, hs⟩
  · exact Or.inl (List.mem_append_left _ h)
  · exact Or.inr ⟨s, List.mem_append_left _ h, hs⟩

theorem writesKeys_nil : WritesKeys X [] := ⟨fun _ _ h => (by cases h), fun _ _ h => (by cases h)⟩

theorem WritesKeys.snoc (h : WritesKeys X tr) {e : Event Op.Reply}
    (hpriv : ∀ body r, e = ⟨.write body, r⟩ → ∃ key, body = privateBody key)
    (hpub : ∀ body r, e = ⟨.writePub body, r⟩ → ∃ key, Obtained X tr key ∧ body = publicBody (X.verifyingKey key)) :
    WritesKeys X (tr ++ [e]) := by
  constructor
  · intro body r hmem
    rcases List.mem_append.1 hmem with hmem | hmem
    · exact h.priv body r hmem
    · exact hpriv body r (List.mem_singleton.1 hmem).symm
  · intro body r hmem
    rcases List.mem_append.1 hmem with hmem | hmem
    · obtain ⟨key, hkey, hbody⟩ := h.pub body r hmem
      exact ⟨key, hkey.snoc e, hbody⟩
    · obtain ⟨key, hkey, hbody⟩ := hpub body r (List.mem_singleton.1 hmem).symm
      exact ⟨key, hkey.snoc e, hbody⟩

theorem writeAgentPublicKeyFile_sat (h : WritesKeys X tr) {key : ByteArr 32} (hkey : Obtained X tr key) :
    Sat (WritesKeys X) (fun r tr' => r = .ok () →
      Obtained X tr' key ∧ ⟨.writePub (publicBody (X.verifyingKey key)), .ok ()⟩ ∈ tr')
      (writeAgentPublicKeyFile X key) tr := by
  have hdir : ∀ r, WritesKeys X (tr ++ [⟨.createDirAll, r⟩]) := fun r =>
    h.snoc (fun _ _ he => by cases he) (fun _ _ he => by cases he)
  refine sat_bind (sat_perform h fun r => ⟨hdir r, ?_⟩)
  cases r with
  | error e => exact fun he => by cases he
  | ok u =>
    have hkey := hkey.snoc ⟨.createDirAll, .ok u⟩
    refine sat_perform (hdir _) fun r => ⟨(hdir _).snoc (fun _ _ he => by cases he) fun body r' he => ?_, fun hr => ?_⟩
    · cases he
      exact ⟨key, hkey, rfl⟩
    · cases r with
      | error e => cases hr
      | ok u' => exact ⟨hkey.snoc _, List.mem_append_right _ (List.mem_singleton_self _)⟩

/-- **One call**: a key that is returned has been obtained, and its public half was written. -/
theorem loadOrCreateSigningKey_sat : Sat (WritesKeys X) (fun r tr => ∀ key, r = .ok key →
    Obtained X tr key ∧ ⟨.writePub (publicBody (X.verifyingKey key)), .ok ()⟩ ∈ tr) (loadOrCreateSigningKey X) [] := by
  -- Both ways of coming by a key go on with the `.pub` file.
  have hrest : ∀ {tr key}, WritesKeys X tr → Obtained X tr key → Sat (WritesKeys X) (fun r tr => ∀ key, r = .ok key →
      Obtained X tr key ∧ ⟨.writePub (publicBody (X.verifyingKey key)), .ok ()⟩ ∈ tr)
      (do writeAgentPublicKeyFile X key; pure key) tr := by
    intro tr key h hkey
    refine sat_bind ((writeAgentPublicKeyFile_sat h hkey).mono fun r tr' hI hr => ?_)
    cases r with
    | error e => exact fun _ he => by cases he
    | ok u =>
      refine sat_pure hI fun key' he => ?_
      cases he
      exact hr rfl
  have hfound : ∀ r, WritesKeys X ([] ++ [⟨.pathExists, r⟩]) := fun r =>
    writesKeys_nil.snoc (fun _ _ he => by cases he) (fun _ _ he => by cases he)
  refine sat_bind (sat_perform writesKeys_nil fun found => ⟨hfound found, ?_⟩)
  cases found with
  | true =>
    have hread : ∀ r, WritesKeys X ([] ++ [⟨.pathExists, true⟩] ++ [⟨.readToString, r⟩]) := fun r =>
      (hfound true).snoc (fun _ _ he => by cases he) (fun _ _ he => by cases he)
    refine sat_bind (sat_perform (hfound _) fun r => ⟨hread r, ?_⟩)
    cases r with
    | error e => exact fun _ he => by cases he
    | ok s =>
      refine sat_bind (sat_ret (hread _) ?_)
      cases hs : keyOfLines X (lines s) with
      | error e => exact fun _ he => by cases he
      | ok key => exact hrest (hread _) (Or.inr ⟨s, List.mem_append_right _ (List.mem_singleton_self _), hs⟩)
  | false =>
    have hdir : ∀ r, WritesKeys X ([] ++ [⟨.pathExists, false⟩] ++ [⟨.createDirAll, r⟩]) := fun r =>
      (hfound false).snoc (fun _ _ he => by cases he) (fun _ _ he => by cases he)
    refine sat_bind (sat_perform (hfound _) fun r => ⟨hdir r, ?_⟩)
    cases r with
    | error e => exact fun _ he => by cases he
    | ok u =>
      have hdraw : ∀ key, WritesKeys X ([] ++ [⟨.pathExists, false⟩] ++ [⟨.createDirAll, .ok u⟩] ++ [⟨.draw, key⟩]) :=
        fun key => (hdir _).snoc (fun _ _ he => by cases he) (fun _ _ he => by cases he)
      refine sat_bind (sat_perform (hdir _) fun key => ⟨hdraw key, ?_⟩)
      have hwrite : ∀ r, WritesKeys X ([] ++ [⟨.pathExists, false⟩] ++ [⟨.createDirAll, .ok u⟩] ++ [⟨.draw, key⟩] ++
          [⟨.write (privateBody key), r⟩]) := fun r =>
        (hdraw key).snoc (fun _ _ he => by cases he; exact ⟨key, rfl⟩) (fun _ _ he => by cases he)
      refine sat_bind (sat_perform (hdraw _) fun r => ⟨hwrite r, ?_⟩)
      cases r with
      | error e => exact fun _ he => by cases he
      | ok u' =>
        exact hrest (hwrite _) (Or.inl (List.mem_append_right _ (List.mem_singleton_self _)))

/-! ## All of them -/

variable [DecidableEq ι]

theorem mem_proj {i : ι} {e : Event Op.Reply} {log : Log ι} : e ∈ Pool.proj i log ↔ (i, e) ∈ log := by
  rw [Pool.proj, List.mem_filterMap]
  constructor
  · rintro ⟨⟨j, e'⟩, hmem, he⟩
    split at he
    · rename_i hj
      cases he
      exact hj ▸ hmem
    · cases he
  · intro hmem
    exact ⟨(i, e), hmem, if_pos rfl⟩

theorem privateBody_inj (hX : X.Lawful) {key key' : ByteArr 32} (h : privateBody key = privateBody key') :
    key = key' := by
  have hkey := keyOfLines_privateBody hX key
  rw [h, keyOfLines_privateBody hX, Except.ok.injEq] at hkey
  exact hkey.symm

section Written

variable {log : Log ι} (hread : ∀ i s, (i, ⟨.readToString, .ok s⟩) ∈ log → s ∈ privateWrites log)
  (hkeys : ∀ i, WritesKeys X (Pool.proj i log))
include hread hkeys

/-- A key that a process has read was written by one of them. -/
theorem obtained_written (hX : X.Lawful) {i : ι} {key : ByteArr 32} (h : Obtained X (Pool.proj i log) key) :
    privateBody key ∈ privateWrites log := by
  rcases h with hwrite | ⟨body, hbody, hkey⟩
  · exact mem_privateWrites.2 ⟨i, mem_proj.1 hwrite⟩
  · have hmem := hread i body (mem_proj.1 hbody)
    obtain ⟨j, hj⟩ := mem_privateWrites.1 hmem
    obtain ⟨key', rfl⟩ := (hkeys j).priv body _ (mem_proj.2 hj)
    rw [keyOfLines_privateBody hX, Except.ok.injEq] at hkey
    exact hkey ▸ hmem

theorem publicWrites_written (hX : X.Lawful) {body : Str} (h : body ∈ publicWrites log) :
    ∃ key, privateBody key ∈ privateWrites log ∧ body = publicBody (X.verifyingKey key) := by
  obtain ⟨j, hj⟩ := mem_publicWrites.1 h
  obtain ⟨key, hkey, rfl⟩ := (hkeys j).pub body _ (mem_proj.2 hj)
  exact ⟨key, obtained_written hread hkeys hX hkey, rfl⟩

end Written

/-- **First use.** Each process that succeeds returns a key that some process has written to the private file,
which holds what was written last; and the `.pub` file holds the public half of a key that was written. Where
the private file has been written only once, all return the key of it, and the files are its two halves. -/
theorem first_use (hX : X.Lawful) {pub : Option Str} {as : Log ι}
    {s : Pool ι Op Op.Reply CoreError (ByteArr 32) KeyFiles}
    (hrun : Lts.run (Pool.step answer) (Pool.start (fun _ => loadOrCreateSigningKey X) ⟨none, pub⟩) as = some s) :
    s.shared.privateKey = (privateWrites as).getLast? ∧
    (∀ i key, s.procs i = .ret (.ok key) → privateBody key ∈ privateWrites as ∧
      ∃ key', privateBody key' ∈ privateWrites as ∧ s.shared.publicKey = some (publicBody (X.verifyingKey key'))) ∧
    ((privateWrites as).length ≤ 1 → ∀ i key, s.procs i = .ret (.ok key) →
      (∀ j key', s.procs j = .ret (.ok key') → key' = key) ∧
        s.shared = ⟨some (privateBody key), some (publicBody (X.verifyingKey key))⟩) := by
  obtain ⟨-, hprocs, hfiles⟩ := Pool.run_proj.1 hrun
  obtain ⟨hshared, hread⟩ := run_answer hfiles
  have hsat : ∀ i, Sat (WritesKeys X) _ (s.procs i) (Pool.proj i as) := fun i =>
    sat_after loadOrCreateSigningKey_sat (hprocs i)
  have hkeys : ∀ i, WritesKeys X (Pool.proj i as) := fun i => (hsat i).inv
  have hreturned : ∀ i key, s.procs i = .ret (.ok key) → privateBody key ∈ privateWrites as ∧
      publicBody (X.verifyingKey key) ∈ publicWrites as := by
    intro i key hi
    have h := hsat i
    rw [hi] at h
    obtain ⟨hkey, hpub⟩ := h.2 key rfl
    exact ⟨obtained_written hread hkeys hX hkey, mem_publicWrites.2 ⟨i, mem_proj.1 hpub⟩⟩
  -- What is in the `.pub` file belongs to a key, as soon as anything has been written there.
  have hpublic : ∀ i key, s.procs i = .ret (.ok key) →
      ∃ key', privateBody key' ∈ privateWrites as ∧ s.shared.publicKey = some (publicBody (X.verifyingKey key')) := by
    intro i key hi
    obtain ⟨body, hbody⟩ : ∃ body, (publicWrites as).getLast? = some body :=
      ⟨_, List.getLast?_eq_some_getLast (List.ne_nil_of_mem (hreturned i key hi).2)⟩
    obtain ⟨key', hkey', rfl⟩ := publicWrites_written hread hkeys hX (List.mem_of_getLast? hbody)
    exact ⟨key', hkey', by rw [hshared, hbody, Option.some_or]⟩
  refine ⟨by rw [hshared], fun i key hi => ⟨(hreturned i key hi).1, hpublic i key hi⟩, fun hone i key hi => ?_⟩
  have hwrites : privateWrites as = [privateBody key] := by
    have hmem := (hreturned i key hi).1
    match hlist : privateWrites as, hone with
    | [], _ =>
      rw [hlist] at hmem
      cases hmem
    | [body], _ =>
      rw [hlist] at hmem
      rw [List.mem_singleton.1 hmem]
  have honly : ∀ key', privateBody key' ∈ privateWrites as → key' = key := by
    intro key' hmem
    rw [hwrites, List.mem_singleton] at hmem
    exact privateBody_inj hX hmem
  obtain ⟨key', hkey', hpub⟩ := hpublic i key hi
  refine ⟨fun j key'' hj => honly key'' (hreturned j key'' hj).1, ?_⟩
  have hpriv : s.shared.privateKey = some (privateBody key) := by
    rw [hshared, hwrites]
    rfl
  rw [honly key' hkey'] at hpub
  rw [← hpriv, ← hpub]

/-! ## Two processes -/

/-- A call that finds no private file. -/
def creates (X : Ext) (key : ByteArr 32) : List (Event Op.Reply) :=
  [⟨.pathExists, false⟩, ⟨.createDirAll, .ok ()⟩, ⟨.draw, key⟩, ⟨.write (privateBody key), .ok ()⟩,
    ⟨.createDirAll, .ok ()⟩, ⟨.writePub (publicBody (X.verifyingKey key)), .ok ()⟩]

/-- A call that finds the key. -/
def loads (X : Ext) (key : ByteArr 32) : List (Event Op.Reply) :=
  [⟨.pathExists, true⟩, ⟨.readToString, .ok (privateBody key)⟩, ⟨.createDirAll, .ok ()⟩,
    ⟨.writePub (publicBody (X.verifyingKey key)), .ok ()⟩]

theorem after_creates (key : ByteArr 32) :
    (loadOrCreateSigningKey X).after (creates X key) = some (.ret (.ok key)) := by
  refine (after_call _ _ _ _).trans ((after_call _ _ _ _).trans ((after_call _ _ _ _).trans ?_))
  exact (after_call _ _ _ _).trans ((after_call _ _ _ _).trans ((after_call _ _ _ _).trans rfl))

theorem after_loads (hX : X.Lawful) (key : ByteArr 32) :
    (loadOrCreateSigningKey X).after (loads X key) = some (.ret (.ok key)) := by
  refine (after_call _ _ _ _).trans ((after_call _ _ _ _).trans ?_)
  show Prog.after ((Prog.ret (keyOfLines X (lines (privateBody key)))) >>= _) _ = _
  rw [keyOfLines_privateBody hX]
  exact (after_call _ _ _ _).trans ((after_call _ _ _ _).trans rfl)

namespace TwoUses

def key : Bool → ByteArr 32
  | false => Sample.secretKey
  | true => Sample.zeros

def performed (i : Bool) (tr : List (Event Op.Reply)) : Log Bool := tr.map (Prod.mk i)

/-- Both look, then both write. -/
def crossed : Log Bool :=
  [(false, ⟨.pathExists, false⟩), (true, ⟨.pathExists, false⟩)] ++ performed false (creates Ext.sample (key false)).tail ++
    performed true (creates Ext.sample (key true)).tail

/-- One after the other. -/
def sequential : Log Bool := performed false (creates Ext.sample (key false)) ++ performed true (loads Ext.sample (key false))

theorem run_crossed : Lts.run (Pool.step answer) (Pool.start (fun _ => loadOrCreateSigningKey Ext.sample) ⟨none, none⟩)
    crossed = some ⟨fun i => .ret (.ok (key i)), ⟨some (privateBody (key true)),
      some (publicBody (Ext.sample.verifyingKey (key true)))⟩, crossed⟩ := by
  refine Pool.run_proj.2 ⟨rfl, fun i => ?_, rfl⟩
  cases i with
  | false => exact after_creates (key false)
  | true => exact after_creates (key true)

theorem run_sequential : Lts.run (Pool.step answer)
    (Pool.start (fun _ => loadOrCreateSigningKey Ext.sample) ⟨none, none⟩) sequential =
      some ⟨fun _ => .ret (.ok (key false)), ⟨some (privateBody (key false)),
        some (publicBody (Ext.sample.verifyingKey (key false)))⟩, sequential⟩ := by
  refine Pool.run_proj.2 ⟨rfl, fun i => ?_, ?_⟩
  · cases i with
    | false => exact after_creates (key false)
    | true => exact after_loads lawful_sample (key false)
  · simp only [sequential, performed, creates, loads, List.map_cons, List.map_nil, List.cons_append, List.nil_append,
      Lts.run, answer, Bool.false_eq_true, false_and, if_false, if_true, reduceCtorEq, and_false]

end TwoUses

open TwoUses

/-- Both processes succeed, with two keys. -/
theorem first_use_crossed : ¬ ∀ (as : Log Bool) (s : Pool Bool Op Op.Reply CoreError (ByteArr 32) KeyFiles),
    Lts.run (Pool.step answer) (Pool.start (fun _ => loadOrCreateSigningKey Ext.sample) ⟨none, none⟩) as = some s →
    ∀ i j key key', s.procs i = .ret (.ok key) → s.procs j = .ret (.ok key') → key = key' := by
  intro h
  have hsame := h crossed _ run_crossed false true (key false) (key true) rfl rfl
  exact absurd hsame (by decide)

/-- One after the other, they return one key. -/
theorem first_use_sequential : ∃ s : Pool Bool Op Op.Reply CoreError (ByteArr 32) KeyFiles,
    Lts.run (Pool.step answer) (Pool.start (fun _ => loadOrCreateSigningKey Ext.sample) ⟨none, none⟩) sequential =
      some s ∧ (∀ i, s.procs i = .ret (.ok Sample.secretKey)) ∧
      s.shared = ⟨some (privateBody Sample.secretKey), some (publicBody Sample.publicKey)⟩ := by
  obtain ⟨-, -, hone⟩ := first_use lawful_sample run_sequential
  have hwrites : (privateWrites sequential).length ≤ 1 := by decide
  exact ⟨_, run_sequential, fun _ => rfl, (hone hwrites true Sample.secretKey rfl).2⟩

end Sao.AgentKey
