import Sao.Client.PinSafety

/-!
# Client processes that share one pin file

Each process reads the whole file, adds the pin of its own host and port and writes the whole file
back, with a probe and a prompt in between or not. Any number of them run interleaved; a read and a
write of the file are one step each.

* `pins_kept` — a pin nobody replaces is never lost, and neither is the one added last for its key,
  unless somebody writes a map read before it was added.
* `lost_pin` — two `sao trust add` that do so.
-/

namespace Sao.Client

open Text Prog

variable (X : Ext)

inductive Process where
  | trustAdd (host : Str) (port : UInt16) (fingerprintHex : Str)
  /-- What follows the connection does not touch the file. -/
  | run (host : Str) (port : UInt16) (acceptNew : Bool)

namespace Process

def prog (knownPath : Str) : Process → Interact Unit
  | .trustAdd host port fingerprintHex => Client.trustAdd X host port fingerprintHex
  | .run host port acceptNew => do
    let _ ← connectWithPinManagement X host port knownPath acceptNew
    pure ()

def key : Process → HostPort
  | .trustAdd host port _ => pinKey X host port
  | .run host port _ => pinKey X host port

/-- The pin a process adds: the one it was given, or the one it got accepted. -/
def Adds : Process → Trace → Pin → Prop
  | .trustAdd _ _ fingerprintHex => fun _ fp => parseHex32 X.toLowercase fingerprintHex = .ok fp
  | .run host port acceptNew => Accepted X host port acceptNew

end Process

/-! ## One process -/

variable {X}

theorem trustAdd_sat {host fingerprintHex : Str} {port : UInt16} :
    Sat (Adds (fun _ fp => parseHex32 X.toLowercase fingerprintHex = .ok fp) (pinKey X host port)) (fun _ _ => True)
      (trustAdd X host port fingerprintHex) [] := by
  refine sat_bind (sat_perform adds_nil fun r => ⟨adds_nil.load, ?_⟩)
  cases r with
  | error e => trivial
  | ok kh =>
  have hk : known [⟨.load, .ok kh⟩] = some kh := rfl
  refine sat_bind (sat_ret adds_nil.load ?_)
  cases hins : kh.insertHex X.toLowercase host port fingerprintHex with
  | error e => trivial
  | ok kh' =>
  obtain ⟨fp, hfp, rfl⟩ := KnownHosts.insertHex_ok hins
  have hI : ∀ r, Adds (fun _ fp => parseHex32 X.toLowercase fingerprintHex = .ok fp) (pinKey X host port)
      ([⟨.load, .ok kh⟩] ++ [⟨.save (kh.insert (pinKey X host port) fp), r⟩]) := by
    intro r
    apply adds_nil.load.snoc
    intro kh' r' he
    cases he
    exact ⟨kh, fp, hk, hfp, rfl⟩
  refine sat_bind (sat_perform adds_nil.load fun r => ⟨hI r, ?_⟩)
  cases r with
  | error e => trivial
  | ok u => exact sat_perform (hI _) fun r => ⟨(hI _).quiet trivial, trivial⟩

/-- **Every process only adds pins of its own to the map it last read or wrote.** -/
theorem Process.adds (hl : Lowercase X.toLowercase) {knownPath : Str} {p : Process} {tr : Trace} {q : Interact Unit}
    (h : (p.prog X knownPath).after tr = some q) : Client.Adds (p.Adds X) (p.key X) tr := by
  cases p with
  | trustAdd host port fingerprintHex => exact (sat_after trustAdd_sat h).inv
  | run host port acceptNew =>
    have hsat : Sat (Saves X host port acceptNew) (fun _ _ => True)
        ((Process.run host port acceptNew).prog X knownPath) [] :=
      sat_bind ((connectWithPinManagement_sat adds_nil hl).mono fun r tr' hI _ => by
        cases r with
        | ok tls => exact sat_pure hI trivial
        | error e => trivial)
    exact (sat_after hsat h).inv

/-! ## All of them -/

variable {ι : Type} [DecidableEq ι]

/-- What all processes have performed, in order. -/
abbrev Log (ι : Type) := List (ι × Event Op.Reply)

variable (X) in
/-- No process has written a pin for this key. -/
def Unwritten (procs : ι → Process) (key : HostPort) (log : Log ι) : Prop :=
  ∀ i kh, (i, ⟨.save kh, .ok ()⟩) ∈ log → (procs i).key X ≠ key

/-- Whoever writes the file has read it since the beginning of the log. -/
def Reread (log : Log ι) : Prop :=
  ∀ before i kh rest, log = before ++ (i, ⟨.save kh, .ok ()⟩) :: rest → ∃ m, (i, ⟨.load, .ok m⟩) ∈ before

abbrev fileRun (k : KnownHosts) (log : Log ι) : Option KnownHosts :=
  Lts.run (fun k (a : ι × Event Op.Reply) => file a.2 k) k log

section Kept

variable {procs : ι → Process} {key : HostPort} {D : Prop}

/-- The value of a key stays in the file and with those who have read it since; with `D`, with all. -/
theorem lookup_kept {v : Option Pin} {before log : Log ι} {k k' : KnownHosts}
    (hv : k.lookup key = v) (hD : D → ∀ i m, known (Pool.proj i before) = some m → m.lookup key = v)
    (hadds : ∀ i, Adds ((procs i).Adds X) ((procs i).key X) (Pool.proj i (before ++ log)))
    (hrun : fileRun k log = some k') (hun : Unwritten X procs key log) (hre : D ∨ Reread log) :
    k'.lookup key = v ∧ ∀ i, (D ∨ ∃ m, (i, ⟨.load, .ok m⟩) ∈ log) →
      ∀ m, known (Pool.proj i (before ++ log)) = some m → m.lookup key = v := by
  induction log using List.reverseRecOn generalizing k' with
  | nil =>
    rw [fileRun, Lts.run_nil, Option.some.injEq] at hrun
    subst hrun
    refine ⟨hv, fun i hi m hm => ?_⟩
    rw [List.append_nil] at hm
    rcases hi with hi | ⟨m', hm'⟩
    · exact hD hi i m hm
    · cases hm'
  | append_singleton log a ih =>
    obtain ⟨j, e⟩ := a
    obtain ⟨k₁, hrun₁, he⟩ := Lts.run_snoc.1 hrun
    have hun₁ : Unwritten X procs key log := fun i kh hmem => hun i kh (List.mem_append_left _ hmem)
    have hre₁ : D ∨ Reread log := hre.imp id fun hre b i kh rest hlog =>
      hre b i kh (rest ++ [(j, e)]) (by rw [hlog, List.append_assoc, List.cons_append])
    have hproj : ∀ i, Pool.proj i (before ++ (log ++ [(j, e)])) =
        Pool.proj i (before ++ log) ++ if j = i then [e] else [] := fun i => by
      rw [← List.append_assoc, Pool.proj_append, Pool.proj_singleton]
    have hadds₁ : ∀ i, Adds ((procs i).Adds X) ((procs i).key X) (Pool.proj i (before ++ log)) := fun i =>
      Adds.prefix (hproj i ▸ hadds i)
    obtain ⟨hk₁, hknown₁⟩ := ih hadds₁ hrun₁ hun₁ hre₁
    -- A process that does not move knows what it knew.
    have hother : ∀ i, j ≠ i → (D ∨ ∃ m, (i, ⟨.load, .ok m⟩) ∈ log ++ [(j, e)]) →
        ∀ m, known (Pool.proj i (before ++ (log ++ [(j, e)]))) = some m → m.lookup key = v := by
      intro i hij hi m hm
      rw [hproj, if_neg hij, List.append_nil] at hm
      refine hknown₁ i (hi.imp id ?_) m hm
      rintro ⟨m', hm'⟩
      rcases List.mem_append.1 hm' with hm' | hm'
      · exact ⟨m', hm'⟩
      · rw [List.mem_singleton, Prod.mk.injEq] at hm'
        exact absurd hm'.1.symm hij
    have hself : k'.lookup key = v ∧ ((D ∨ ∃ m, (j, ⟨.load, .ok m⟩) ∈ log ++ [(j, e)]) →
        ∀ m, known (Pool.proj j (before ++ log) ++ [e]) = some m → m.lookup key = v) := by
      rcases file_cases he with ⟨rfl, hpassive, hload⟩ | ⟨rfl, rfl⟩ | rfl
      · refine ⟨hk₁, fun hj m hm => hknown₁ j (hj.imp id ?_) m (by rwa [hpassive] at hm)⟩
        rintro ⟨m', hm'⟩
        rcases List.mem_append.1 hm' with hm' | hm'
        · exact ⟨m', hm'⟩
        · rw [List.mem_singleton, Prod.mk.injEq] at hm'
          exact absurd hm'.2.symm (hload m')
      · refine ⟨hk₁, fun _ m hm => ?_⟩
        rw [known_snoc, Option.some.injEq] at hm
        exact hm ▸ hk₁
      · have hkey : (procs j).key X ≠ key := hun j k' (List.mem_append_right _ List.mem_cons_self)
        have hadd := hadds j
        rw [hproj, if_pos rfl] at hadd
        obtain ⟨m, fp, hm, -, hk'⟩ := hadd _ k' (.ok ()) [] rfl
        have hv' : k'.lookup key = v := by
          rw [hk', KnownHosts.lookup_insert_ne hkey.symm]
          exact hknown₁ j (hre.imp id fun hre => hre log j k' [] rfl) m hm
        refine ⟨hv', fun _ m' hm' => ?_⟩
        rw [known_snoc, Option.some.injEq] at hm'
        exact hm' ▸ hv'
    refine ⟨hself.1, fun i hi => ?_⟩
    by_cases hij : j = i
    · subst hij
      rw [hproj, if_pos rfl]
      exact hself.2 hi
    · exact hother i hij hi

end Kept

variable (X) in
/-- A pin that was there and that no process touched is in the map. -/
def UntouchedKept (procs : ι → Process) (k₀ : KnownHosts) (log : Log ι) (k : KnownHosts) : Prop :=
  ∀ key, Unwritten X procs key log → k.lookup key = k₀.lookup key

variable (X) in
/-- What the process that wrote last for its key put there is in the map, and is a pin it added, if
what was performed since meets the condition. -/
def LastKept (since : Log ι → Prop) (procs : ι → Process) (log : Log ι) (k : KnownHosts) : Prop :=
  ∀ before i kh later, log = before ++ (i, ⟨.save kh, .ok ()⟩) :: later →
    Unwritten X procs ((procs i).key X) later → since later →
    ∃ fp, (procs i).Adds X (Pool.proj i before) fp ∧ kh.lookup ((procs i).key X) = some fp ∧
      k.lookup ((procs i).key X) = some fp

/-- **Who writes late must have read late.** In every run, finished or not, untouched pins stay, and
so does the pin added last for its key, unless somebody since wrote a map read before it was added. -/
theorem pins_kept (hl : Lowercase X.toLowercase) {knownPath : Str} {procs : ι → Process} {k₀ : KnownHosts}
    {as : Log ι} {s : Pool ι Op Op.Reply Stop Unit KnownHosts}
    (h : Lts.run (Pool.step file) (Pool.start (fun i => (procs i).prog X knownPath) k₀) as = some s) :
    UntouchedKept X procs k₀ as s.shared ∧ LastKept X Reread procs as s.shared := by
  obtain ⟨-, hprocs, hfile⟩ := Pool.run_proj.1 h
  have hadds : ∀ i, Adds ((procs i).Adds X) ((procs i).key X) (Pool.proj i as) := fun i => Process.adds hl (hprocs i)
  constructor
  · intro key hun
    have hnil : True → ∀ i m, known (Pool.proj i ([] : Log ι)) = some m → m.lookup key = k₀.lookup key := by
      intro _ i m hm
      cases hm
    exact (lookup_kept rfl hnil hadds hfile hun (Or.inl trivial)).1
  · intro before i kh later has hun hre
    subst has
    rw [List.append_cons] at hadds hfile
    obtain ⟨k₁, hrun₁, hrun₂⟩ := Lts.run_append.1 hfile
    obtain ⟨k₂, -, hsave⟩ := Lts.run_snoc.1 hrun₁
    cases hsave
    -- The pin of the process that wrote last, from its own trace.
    have hadd := hadds i
    rw [Pool.proj_append, Pool.proj_append, Pool.proj_singleton, if_pos rfl, List.append_assoc] at hadd
    obtain ⟨m, fp, -, hfp, rfl⟩ := hadd _ kh (.ok ()) _ rfl
    have hself := KnownHosts.lookup_insert_self m ((procs i).key X) fp
    exact ⟨fp, hfp, hself, (lookup_kept hself False.elim hadds hrun₂ hun (Or.inr hre)).1⟩

/-! ## Two `sao trust add` -/

theorem after_trustAdd {host fingerprintHex : Str} {port : UInt16} {fp : Pin}
    (hfp : parseHex32 X.toLowercase fingerprintHex = .ok fp) (k : KnownHosts) :
    (Client.trustAdd X host port fingerprintHex).after [⟨.load, .ok k⟩, ⟨.save (k.insert (pinKey X host port) fp), .ok ()⟩,
      ⟨.eprint ("pinned ".toList ++ hostPort host port ++ ['\n']), .ok ()⟩] = some (.ret (.ok ())) := by
  refine (after_call _ _ _ _).trans ?_
  show Prog.after ((Prog.ret ((k.insertHex X.toLowercase host port fingerprintHex).mapError Stop.ofFault)) >>= _) _ = _
  rw [KnownHosts.insertHex, hfp]
  exact (after_call _ _ _ _).trans ((after_call _ _ _ _).trans (after_nil _))

namespace TwoAdds

/-- `sao trust add a 8443 aa…aa` and `sao trust add b 8443 aa…aa` -/
def procs : Bool → Process
  | false => .trustAdd "a".toList 8443 (List.replicate 64 'a')
  | true => .trustAdd "b".toList 8443 (List.replicate 64 'a')

def readFile (i : Bool) (k : KnownHosts) : Bool × Event Op.Reply := (i, ⟨.load, .ok k⟩)

/-- What follows the read: the map is written with the new pin, and the message printed. -/
def writeFile (i : Bool) (k : KnownHosts) : Log Bool :=
  [(i, ⟨.save (k.insert ((procs i).key Ext.sample) KnownHosts.pinAA), .ok ()⟩),
    (i, ⟨.eprint ("pinned ".toList ++ hostPort (if i then "b".toList else "a".toList) 8443 ++ ['\n']), .ok ()⟩)]

theorem keys_ne : (procs true).key Ext.sample ≠ (procs false).key Ext.sample := by decide

theorem after_proc (i : Bool) (k : KnownHosts) :
    ((procs i).prog Ext.sample []).after (Pool.proj i (readFile i k :: writeFile i k)) = some (.ret (.ok ())) := by
  cases i
  · exact after_trustAdd KnownHosts.parseHex32_repeat_a k
  · exact after_trustAdd KnownHosts.parseHex32_repeat_a k

/-- A log in which each of the two adds its pin to the map it read is a run in which both finish. -/
theorem run_of {log : Log Bool} {k : Bool → KnownHosts} {k' : KnownHosts}
    (hproj : ∀ i, Pool.proj i log = Pool.proj i (readFile i (k i) :: writeFile i (k i)))
    (hfile : fileRun .default log = some k') :
    Lts.run (Pool.step file) (Pool.start (fun i => (procs i).prog Ext.sample []) .default) log =
      some ⟨fun _ => .ret (.ok ()), k', log⟩ :=
  Pool.run_proj.2 ⟨rfl, fun i => by rw [hproj i]; exact after_proc i (k i), hfile⟩

/-- Both read, then both write. -/
def crossed : Log Bool := [readFile false .default, readFile true .default] ++ writeFile false .default ++ writeFile true .default

def one : KnownHosts := KnownHosts.default.insert ((procs false).key Ext.sample) KnownHosts.pinAA

/-- One after the other. -/
def sequential : Log Bool := readFile false .default :: writeFile false .default ++ (readFile true one :: writeFile true one)

theorem run_crossed : Lts.run (Pool.step file) (Pool.start (fun i => (procs i).prog Ext.sample []) .default) crossed =
    some ⟨fun _ => .ret (.ok ()), KnownHosts.default.insert ((procs true).key Ext.sample) KnownHosts.pinAA, crossed⟩ := by
  refine run_of (k := fun _ => .default) (fun i => ?_) ?_
  · cases i <;> rfl
  · simp only [crossed, readFile, writeFile, fileRun, List.cons_append, List.nil_append, Lts.run, file, if_true]

theorem run_sequential :
    Lts.run (Pool.step file) (Pool.start (fun i => (procs i).prog Ext.sample []) .default) sequential =
      some ⟨fun _ => .ret (.ok ()), one.insert ((procs true).key Ext.sample) KnownHosts.pinAA, sequential⟩ := by
  refine run_of (k := fun i => if i then one else .default) (fun i => ?_) ?_
  · cases i <;> rfl
  · simp only [sequential, readFile, writeFile, fileRun, List.cons_append, List.nil_append, Lts.run, file, if_true, one]

end TwoAdds

open TwoAdds

/-- Both commands succeed, and the pin of `a` is gone. -/
theorem lost_pin : ¬ ∀ (procs : Bool → Process) (k₀ : KnownHosts) (as : Log Bool)
    (s : Pool Bool Op Op.Reply Stop Unit KnownHosts),
    Lts.run (Pool.step file) (Pool.start (fun i => (procs i).prog Ext.sample []) k₀) as = some s →
    (∀ i, s.procs i = .ret (.ok ())) →
    UntouchedKept Ext.sample procs k₀ as s.shared ∧ LastKept Ext.sample (fun _ => True) procs as s.shared := by
  intro h
  have hkept := (h procs .default crossed _ run_crossed fun _ => rfl).2
  have hun : Unwritten Ext.sample procs ((procs false).key Ext.sample)
      ((writeFile false .default).tail ++ writeFile true .default) := by
    intro i kh hmem
    simp only [writeFile, List.tail_cons, List.cons_append, List.nil_append, List.mem_cons, Prod.mk.injEq,
      List.not_mem_nil, or_false] at hmem
    rcases hmem with ⟨-, he⟩ | ⟨rfl, -⟩ | ⟨-, he⟩
    · cases he
    · exact keys_ne
    · cases he
  obtain ⟨fp, -, -, hfp⟩ := hkept [readFile false .default, readFile true .default] false _ _ rfl hun trivial
  rw [KnownHosts.lookup_insert_ne keys_ne.symm, KnownHosts.lookup_default] at hfp
  cases hfp

/-- One command after the other: both pins are there. -/
theorem pins_kept_sequential : (one.insert ((procs true).key Ext.sample) KnownHosts.pinAA).lookup
    ((procs false).key Ext.sample) = some KnownHosts.pinAA := by
  have hun : Unwritten Ext.sample procs ((procs false).key Ext.sample)
      ((writeFile false .default).tail ++ (readFile true one :: writeFile true one)) := by
    intro i kh hmem
    simp only [readFile, writeFile, List.tail_cons, List.cons_append, List.nil_append, List.mem_cons, Prod.mk.injEq,
      List.not_mem_nil, or_false] at hmem
    rcases hmem with ⟨-, he⟩ | ⟨-, he⟩ | ⟨rfl, -⟩ | ⟨-, he⟩
    · cases he
    · cases he
    · exact keys_ne
    · cases he
  have hre : Reread ((writeFile false .default).tail ++ (readFile true one :: writeFile true one)) := by
    intro before i kh rest hlog
    rcases before with _ | ⟨x, _ | ⟨y, _ | ⟨z, _ | ⟨w, before⟩⟩⟩⟩
    · cases hlog
    · cases hlog
    · cases hlog
      exact ⟨one, List.mem_cons_of_mem _ List.mem_cons_self⟩
    · cases hlog
    · simp [readFile, writeFile] at hlog
  obtain ⟨fp, -, hone, hfp⟩ :=
    (pins_kept lawful_sample.lowercase run_sequential).2 [readFile false .default] false _ _ rfl hun hre
  rw [KnownHosts.lookup_insert_self] at hone
  exact hfp.trans hone.symm

end Sao.Client
