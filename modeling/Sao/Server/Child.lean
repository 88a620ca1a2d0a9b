import Sao.Lib.Bytes

/-!
# The command of one `run_one_exec`: its process, its pipes and the two reader tasks

A command writes to two pipes. A reader task for each moves what it reads, at most 16384 bytes at
a time, into one unbounded channel, and ends at the end of the pipe, at a read error, or when the
receiver is gone. The process exits on its own time; its pipes stay open as long as some process
holds them.

| here | there |
| --- | --- |
| `StreamChunk`                | `enum StreamChunk`, the constructor as the field `fd` |
| `Child.queue`, `Child.rx`    | the `mpsc` channel: what was sent and not yet received, and whether `rx` still exists |
| `Pipe.reader`                | the spawned task still runs, so its `tx` is not dropped |
| `Child.status`               | `ExitStatus::code()` once the process has exited |

`wrote` and `sent` record what happened; no step reads them.

* `step_sends` — a step adds whole chunks to the end of the channel, and none once both senders
  are gone.
* `faithful_step` — what was sent of a pipe, with what is still in it, is what was written to it,
  as long as there is a receiver; later what was sent remains the beginning of it.
-/

namespace Sao

inductive Fd where
  | out
  | err
deriving DecidableEq, Repr

structure StreamChunk where
  fd : Fd
  data : Bytes
deriving DecidableEq, Repr

structure Pipe where
  wrote : Bytes
  buf : Bytes
  writer : Bool
  reader : Bool
deriving DecidableEq, Repr

structure Child where
  argv : List Str
  stdout : Pipe
  stderr : Pipe
  queue : List StreamChunk
  sent : List StreamChunk
  rx : Bool
  status : Option (Option Int32)
deriving DecidableEq, Repr

/-- `vec![0u8; 16384]` -/
def READ_BUF_LEN : Nat := 16384

/-- A chunk as the reader tasks send it: what one `read` returned. -/
def StreamChunk.Ok (c : StreamChunk) : Prop := 0 < c.data.length ∧ c.data.length ≤ READ_BUF_LEN

namespace Child

def freshPipe : Pipe := ⟨[], [], true, true⟩

def spawn (argv : List Str) : Child := ⟨argv, freshPipe, freshPipe, [], [], true, none⟩

def pipe (c : Child) : Fd → Pipe
  | .out => c.stdout
  | .err => c.stderr

def setPipe (c : Child) (fd : Fd) (p : Pipe) : Child :=
  match fd with
  | .out => { c with stdout := p }
  | .err => { c with stderr := p }

inductive Action where
  /-- Some process of the command writes. -/
  | write (fd : Fd) (b : Bytes)
  /-- The last holder of the write end closes it. -/
  | close (fd : Fd)
  | exit (code : Option Int32)
  /-- `read` of the reader task returns `n` bytes. -/
  | read (fd : Fd) (n : Nat)
  /-- `Ok(0)` -/
  | eof (fd : Fd)
  /-- `Err(_)` -/
  | readErr (fd : Fd)
deriving DecidableEq, Repr

/-- A chunk is sent, or `send` fails and the reader task ends. -/
def send (c : Child) (fd : Fd) (n : Nat) : Child :=
  let p := c.pipe fd
  if c.rx then
    { c.setPipe fd { p with buf := p.buf.drop n } with
      queue := c.queue ++ [⟨fd, p.buf.take n⟩], sent := c.sent ++ [⟨fd, p.buf.take n⟩] }
  else c.setPipe fd { p with buf := p.buf.drop n, reader := false }

def step (c : Child) : Action → Option Child
  | .write fd b =>
    if (c.pipe fd).writer ∧ b ≠ [] then
      some (c.setPipe fd { c.pipe fd with wrote := (c.pipe fd).wrote ++ b, buf := (c.pipe fd).buf ++ b })
    else none
  | .close fd => if (c.pipe fd).writer then some (c.setPipe fd { c.pipe fd with writer := false }) else none
  | .exit code => if c.status = none then some { c with status := some code } else none
  | .read fd n =>
    if (c.pipe fd).reader ∧ 0 < n ∧ n ≤ READ_BUF_LEN ∧ n ≤ (c.pipe fd).buf.length then some (c.send fd n) else none
  | .eof fd =>
    if (c.pipe fd).reader ∧ (c.pipe fd).buf = [] ∧ (c.pipe fd).writer = false then
      some (c.setPipe fd { c.pipe fd with reader := false })
    else none
  | .readErr fd =>
    if (c.pipe fd).reader then some (c.setPipe fd { c.pipe fd with reader := false }) else none

/-- Both `tx` are dropped. -/
def sendersGone (c : Child) : Prop := c.stdout.reader = false ∧ c.stderr.reader = false

instance (c : Child) : Decidable c.sendersGone := inferInstanceAs (Decidable (_ ∧ _))

/-! ## What a step does to the channel -/

section Projections

variable (c : Child) (fd : Fd) (p : Pipe)

@[simp] theorem setPipe_queue : (c.setPipe fd p).queue = c.queue := by cases fd <;> rfl
@[simp] theorem setPipe_sent : (c.setPipe fd p).sent = c.sent := by cases fd <;> rfl
@[simp] theorem setPipe_rx : (c.setPipe fd p).rx = c.rx := by cases fd <;> rfl
@[simp] theorem setPipe_status : (c.setPipe fd p).status = c.status := by cases fd <;> rfl
@[simp] theorem pipe_setPipe : (c.setPipe fd p).pipe fd = p := by cases fd <;> rfl

theorem pipe_setPipe_ne {fd fd' : Fd} (h : fd' ≠ fd) : (c.setPipe fd p).pipe fd' = c.pipe fd' := by
  cases fd <;> cases fd' <;> first | rfl | exact absurd rfl h

end Projections

theorem sendersGone_iff {c : Child} : c.sendersGone ↔ ∀ fd, (c.pipe fd).reader = false := by
  constructor
  · rintro ⟨h1, h2⟩ fd
    cases fd
    · exact h1
    · exact h2
  · intro h
    exact ⟨h .out, h .err⟩

/-- A step that leaves the channel alone and starts no reader task. -/
theorem sendersGone_setPipe {c : Child} {fd : Fd} {p : Pipe} (hp : p.reader = true → (c.pipe fd).reader = true)
    (h : c.sendersGone) : (c.setPipe fd p).sendersGone := by
  rw [sendersGone_iff] at h ⊢
  intro fd'
  by_cases hfd : fd' = fd
  · subst hfd
    rw [pipe_setPipe]
    cases hr : p.reader with
    | false => rfl
    | true => rw [h fd'] at hp; exact absurd (hp hr) (by simp)
  · rw [pipe_setPipe_ne _ _ hfd]
    exact h fd'

/-- **One spec lemma for the channel.** -/
theorem step_sends {c c' : Child} {a : Action} (h : c.step a = some c') :
    ∃ new, c'.sent = c.sent ++ new ∧ c'.queue = c.queue ++ new ∧ (∀ ch ∈ new, StreamChunk.Ok ch) ∧
      (c.sendersGone → c'.sendersGone ∧ new = []) := by
  cases a with
  | write fd b =>
    simp only [step] at h
    split at h
    · cases h
      exact ⟨[], by simp, by simp, by simp, fun hg => ⟨sendersGone_setPipe (fun h => h) hg, rfl⟩⟩
    · cases h
  | close fd =>
    simp only [step] at h
    split at h
    · cases h
      exact ⟨[], by simp, by simp, by simp, fun hg => ⟨sendersGone_setPipe (fun h => h) hg, rfl⟩⟩
    · cases h
  | exit code =>
    simp only [step] at h
    split at h
    · cases h
      exact ⟨[], by simp, by simp, by simp, fun hg => ⟨hg, rfl⟩⟩
    · cases h
  | read fd n =>
    simp only [step] at h
    split at h
    · rename_i hn
      obtain ⟨hreader, hn0, hnmax, hlen⟩ := hn
      have hbusy : ¬ c.sendersGone := by
        intro hg
        rw [sendersGone_iff.1 hg fd] at hreader
        cases hreader
      cases h
      unfold send
      split
      · refine ⟨[⟨fd, (c.pipe fd).buf.take n⟩], rfl, rfl, ?_, fun hg => absurd hg hbusy⟩
        intro ch hch
        rw [List.mem_singleton] at hch
        subst hch
        have hl : ((c.pipe fd).buf.take n).length = n := by rw [List.length_take, Nat.min_eq_left hlen]
        exact ⟨by rw [hl]; exact hn0, by rw [hl]; exact hnmax⟩
      · exact ⟨[], by simp, by simp, by simp, fun hg => absurd hg hbusy⟩
    · cases h
  | eof fd =>
    simp only [step] at h
    split at h
    · cases h
      exact ⟨[], by simp, by simp, by simp, fun hg => ⟨sendersGone_setPipe (fun h => by cases h) hg, rfl⟩⟩
    · cases h
  | readErr fd =>
    simp only [step] at h
    split at h
    · cases h
      exact ⟨[], by simp, by simp, by simp, fun hg => ⟨sendersGone_setPipe (fun h => by cases h) hg, rfl⟩⟩
    · cases h

/-! ## What a step leaves -/

theorem setPipe_argv (c : Child) (fd : Fd) (p : Pipe) : (c.setPipe fd p).argv = c.argv := by cases fd <;> rfl

theorem send_argv (c : Child) (fd : Fd) (n : Nat) : (c.send fd n).argv = c.argv := by
  unfold send
  split <;> exact setPipe_argv _ _ _

theorem send_status (c : Child) (fd : Fd) (n : Nat) : (c.send fd n).status = c.status := by
  unfold send
  split <;> exact setPipe_status _ _ _

theorem send_rx (c : Child) (fd : Fd) (n : Nat) : (c.send fd n).rx = c.rx := by
  unfold send
  split <;> exact setPipe_rx _ _ _

theorem step_keeps {c c' : Child} {a : Action} (h : c.step a = some c') :
    c'.argv = c.argv ∧ c'.rx = c.rx ∧ ∀ st, c.status = some st → c'.status = some st := by
  cases a with
  | exit code =>
    simp only [step] at h
    split at h
    · rename_i hnone
      cases h
      exact ⟨rfl, rfl, fun st hst => by rw [hnone] at hst; cases hst⟩
    · cases h
  | read fd n =>
    simp only [step] at h
    split at h
    · cases h
      exact ⟨send_argv c fd n, send_rx c fd n, fun st hst => by rw [send_status, hst]⟩
    · cases h
  | _ =>
    simp only [step] at h
    split at h
    · cases h
      exact ⟨setPipe_argv _ _ _, setPipe_rx _ _ _, fun st hst => by rw [setPipe_status, hst]⟩
    · cases h

/-! ## What was written and what was sent -/

/-- The data of the chunks of one pipe. -/
def dataOf (fd : Fd) (cs : List StreamChunk) : Bytes := cs.flatMap fun c => if c.fd = fd then c.data else []

@[simp] theorem dataOf_nil (fd : Fd) : dataOf fd [] = [] := rfl

@[simp] theorem dataOf_append (fd : Fd) (cs ds : List StreamChunk) : dataOf fd (cs ++ ds) = dataOf fd cs ++ dataOf fd ds :=
  List.flatMap_append

theorem dataOf_single (fd : Fd) (d : Bytes) : dataOf fd [⟨fd, d⟩] = d := by simp [dataOf]

theorem dataOf_other {fd fd' : Fd} (h : fd' ≠ fd) (d : Bytes) : dataOf fd' [⟨fd, d⟩] = [] := by
  simp [dataOf, Ne.symm h]

theorem dataOf_isPrefix {cs ds : List StreamChunk} (h : cs <+: ds) (fd : Fd) : dataOf fd cs <+: dataOf fd ds := by
  obtain ⟨es, rfl⟩ := h
  exact ⟨dataOf fd es, (dataOf_append fd cs es).symm⟩

/-- The chunks carry what the processes of the command wrote. -/
structure Faithful (c : Child) : Prop where
  sent : ∀ fd, dataOf fd c.sent <+: (c.pipe fd).wrote
  buffered : c.rx = true → ∀ fd, dataOf fd c.sent ++ (c.pipe fd).buf = (c.pipe fd).wrote

theorem faithful_of_buffered {c : Child} (h : ∀ fd, dataOf fd c.sent ++ (c.pipe fd).buf = (c.pipe fd).wrote) :
    c.Faithful :=
  ⟨fun fd => ⟨(c.pipe fd).buf, h fd⟩, fun _ => h⟩

theorem faithful_spawn (argv : List Str) : (spawn argv).Faithful :=
  ⟨fun _ => List.nil_prefix, fun _ fd => by cases fd <;> rfl⟩

/-- More is written to a pipe, or its ends are closed. -/
theorem Faithful.setPipe {c : Child} (h : c.Faithful) {fd : Fd} {p : Pipe} {d : Bytes}
    (hw : p.wrote = (c.pipe fd).wrote ++ d) (hb : p.buf = (c.pipe fd).buf ++ d) : (c.setPipe fd p).Faithful := by
  constructor
  · intro fd'
    rw [setPipe_sent]
    by_cases hfd : fd' = fd
    · subst hfd
      rw [pipe_setPipe, hw]
      exact (h.sent fd').trans (List.prefix_append _ _)
    · rw [pipe_setPipe_ne _ _ hfd]
      exact h.sent fd'
  · intro hrx fd'
    rw [setPipe_rx] at hrx
    rw [setPipe_sent]
    by_cases hfd : fd' = fd
    · subst hfd
      rw [pipe_setPipe, hw, hb, ← List.append_assoc, h.buffered hrx fd']
    · rw [pipe_setPipe_ne _ _ hfd]
      exact h.buffered hrx fd'

theorem faithful_send {c : Child} (h : c.Faithful) (fd : Fd) (n : Nat) : (c.send fd n).Faithful := by
  unfold send
  by_cases hrx : c.rx = true
  · rw [if_pos hrx]
    have hall : ∀ fd', dataOf fd' (c.sent ++ [⟨fd, (c.pipe fd).buf.take n⟩]) ++
        ((c.setPipe fd { c.pipe fd with buf := (c.pipe fd).buf.drop n }).pipe fd').buf =
        ((c.setPipe fd { c.pipe fd with buf := (c.pipe fd).buf.drop n }).pipe fd').wrote := by
      intro fd'
      by_cases hfd : fd' = fd
      · subst hfd
        rw [pipe_setPipe, dataOf_append, dataOf_single, List.append_assoc, List.take_append_drop]
        exact h.buffered hrx fd'
      · rw [pipe_setPipe_ne _ _ hfd, dataOf_append, dataOf_other hfd, List.append_nil]
        exact h.buffered hrx fd'
    exact faithful_of_buffered hall
  · rw [if_neg hrx]
    constructor
    · intro fd'
      rw [setPipe_sent]
      by_cases hfd : fd' = fd
      · subst hfd
        rw [pipe_setPipe]
        exact h.sent fd'
      · rw [pipe_setPipe_ne _ _ hfd]
        exact h.sent fd'
    · intro hrx'
      rw [setPipe_rx] at hrx'
      exact absurd hrx' hrx

theorem faithful_step {c c' : Child} {a : Action} (h : c.Faithful) (hs : c.step a = some c') : c'.Faithful := by
  cases a with
  | write fd b =>
    simp only [step] at hs
    split at hs
    · cases hs
      exact h.setPipe rfl rfl
    · cases hs
  | exit code =>
    simp only [step] at hs
    split at hs
    · cases hs
      exact ⟨h.sent, h.buffered⟩
    · cases hs
  | read fd n =>
    simp only [step] at hs
    split at hs
    · cases hs
      exact faithful_send h fd n
    · cases hs
  | _ =>
    simp only [step] at hs
    split at hs
    · cases hs
      exact h.setPipe (List.append_nil _).symm (List.append_nil _).symm
    · cases hs

end Child

end Sao
