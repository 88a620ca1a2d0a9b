import Sao.Server.PrefixSafety

/-!
# A command that writes given bytes

A `Program` is what the processes of a command are to write to its two pipes and the code the command is to
exit with. How they split the bytes into writes and the reader tasks into reads, and in which order all of
it happens, stays open.

* `obeyed_step` — what a command keeps as long as it obeys its program and its receiver is there: of a
  pipe whose reader task has ended everything was sent.
* `allObey_step` — the same of the commands of a session.
-/

namespace Sao

structure Program where
  stdout : Bytes
  stderr : Bytes
  code : Option Int32

def Program.output (P : Program) : Fd → Bytes
  | .out => P.stdout
  | .err => P.stderr

namespace Child

variable {P : Program} {c c' : Child}

/-- The step follows the program, and no `read` fails. -/
def Obeys (P : Program) (c : Child) : Action → Prop
  | .write fd b => (c.pipe fd).wrote ++ b <+: P.output fd
  | .close fd => (c.pipe fd).wrote = P.output fd
  | .exit code => code = P.code
  | .readErr _ => False
  | .read _ _ | .eof _ => True

structure Obeyed (P : Program) (c : Child) : Prop where
  wrote : ∀ fd, (c.pipe fd).wrote <+: P.output fd
  closed : ∀ fd, (c.pipe fd).writer = false → (c.pipe fd).wrote = P.output fd
  exited : ∀ code, c.status = some code → code = P.code
  /-- What was sent of a pipe, with what is still in it, is what was written to it. -/
  buffered : ∀ fd, (c.pipe fd).reader = true → dataOf fd c.sent ++ (c.pipe fd).buf = (c.pipe fd).wrote
  whole : ∀ fd, (c.pipe fd).reader = false → dataOf fd c.sent = P.output fd
  ok : ∀ ch ∈ c.sent, ch.Ok

/-- The receiver is there as long as somebody may send to it. -/
def Live (c : Child) : Prop := c.rx = true ∨ c.sendersGone

theorem obeyed_spawn (P : Program) (argv : List Str) : (spawn argv).Obeyed P where
  wrote fd := by cases fd <;> exact List.nil_prefix
  closed fd h := by cases fd <;> cases h
  exited code h := by cases h
  buffered fd _ := by cases fd <;> rfl
  whole fd h := by cases fd <;> cases h
  ok ch h := by cases h

theorem Live.rx (h : c.Live) {fd : Fd} (hr : (c.pipe fd).reader = true) : c.rx = true := by
  rcases h with h | h
  · exact h
  · rw [sendersGone_iff.1 h fd] at hr
    cases hr

/-- One pipe changes and nothing is sent. -/
theorem Obeyed.setPipe (h : c.Obeyed P) {fd : Fd} {p : Pipe} (hw : p.wrote <+: P.output fd)
    (hc : p.writer = false → p.wrote = P.output fd)
    (hb : p.reader = true → dataOf fd c.sent ++ p.buf = p.wrote)
    (hr : p.reader = false → dataOf fd c.sent = P.output fd) : (c.setPipe fd p).Obeyed P := by
  -- the other pipe is as it was
  have hcases : ∀ fd', fd' = fd ∧ (c.setPipe fd p).pipe fd' = p ∨ (c.setPipe fd p).pipe fd' = c.pipe fd' := by
    intro fd'
    by_cases hfd : fd' = fd
    · subst hfd
      exact Or.inl ⟨rfl, pipe_setPipe ..⟩
    · exact Or.inr (pipe_setPipe_ne _ _ hfd)
  refine ⟨fun fd' => ?_, fun fd' => ?_, fun code hcode => ?_, fun fd' => ?_, fun fd' => ?_, fun ch hch => ?_⟩
  · rcases hcases fd' with ⟨rfl, heq⟩ | heq <;> rw [heq]
    · exact hw
    · exact h.wrote fd'
  · rcases hcases fd' with ⟨rfl, heq⟩ | heq <;> rw [heq]
    · exact hc
    · exact h.closed fd'
  · exact h.exited code (by rwa [setPipe_status] at hcode)
  · rw [setPipe_sent]
    rcases hcases fd' with ⟨rfl, heq⟩ | heq <;> rw [heq]
    · exact hb
    · exact h.buffered fd'
  · rw [setPipe_sent]
    rcases hcases fd' with ⟨rfl, heq⟩ | heq <;> rw [heq]
    · exact hr
    · exact h.whole fd'
  · exact h.ok ch (by rwa [setPipe_sent] at hch)

/-- A chunk of a pipe is sent. -/
theorem Obeyed.send (h : c.Obeyed P) (hrx : c.rx = true) {fd : Fd} (hr : (c.pipe fd).reader = true) {n : Nat}
    (h0 : 0 < n) (hmax : n ≤ READ_BUF_LEN) (hlen : n ≤ (c.pipe fd).buf.length) : (c.send fd n).Obeyed P := by
  unfold Child.send
  rw [if_pos hrx]
  generalize hp : ({ c.pipe fd with buf := (c.pipe fd).buf.drop n } : Pipe) = p
  have hpw : p.wrote = (c.pipe fd).wrote := by rw [← hp]
  have hpc : p.writer = (c.pipe fd).writer := by rw [← hp]
  have hpr : p.reader = true := by rw [← hp]; exact hr
  have hpb : p.buf = (c.pipe fd).buf.drop n := by rw [← hp]
  have hcases : ∀ fd', fd' = fd ∧ (c.setPipe fd p).pipe fd' = p ∨
      fd' ≠ fd ∧ (c.setPipe fd p).pipe fd' = c.pipe fd' := by
    intro fd'
    by_cases hfd : fd' = fd
    · subst hfd
      exact Or.inl ⟨rfl, pipe_setPipe ..⟩
    · exact Or.inr ⟨hfd, pipe_setPipe_ne _ _ hfd⟩
  refine ⟨fun fd' => ?_, fun fd' => ?_, fun code hcode => ?_, fun fd' => ?_, fun fd' => ?_, fun ch hch => ?_⟩
  · show ((c.setPipe fd p).pipe fd').wrote <+: _
    rcases hcases fd' with ⟨rfl, heq⟩ | ⟨-, heq⟩ <;> rw [heq]
    · exact hpw ▸ h.wrote fd'
    · exact h.wrote fd'
  · show ((c.setPipe fd p).pipe fd').writer = false → ((c.setPipe fd p).pipe fd').wrote = _
    rcases hcases fd' with ⟨rfl, heq⟩ | ⟨-, heq⟩ <;> rw [heq]
    · rw [hpw, hpc]
      exact h.closed fd'
    · exact h.closed fd'
  · exact h.exited code (by simpa using hcode)
  · show ((c.setPipe fd p).pipe fd').reader = true →
      _ ++ ((c.setPipe fd p).pipe fd').buf = ((c.setPipe fd p).pipe fd').wrote
    rcases hcases fd' with ⟨rfl, heq⟩ | ⟨hne, heq⟩ <;> rw [heq]
    · rw [hpw, hpb, dataOf_append, dataOf_single, List.append_assoc, List.take_append_drop]
      exact fun _ => h.buffered fd' hr
    · rw [dataOf_append, dataOf_other hne, List.append_nil]
      exact h.buffered fd'
  · show ((c.setPipe fd p).pipe fd').reader = false → _
    rcases hcases fd' with ⟨rfl, heq⟩ | ⟨hne, heq⟩ <;> rw [heq]
    · rw [hpr]
      nofun
    · rw [dataOf_append, dataOf_other hne, List.append_nil]
      exact h.whole fd'
  · rcases List.mem_append.1 hch with hch | hch
    · exact h.ok ch hch
    · rw [List.mem_singleton.1 hch]
      have hl : ((c.pipe fd).buf.take n).length = n := by rw [List.length_take, Nat.min_eq_left hlen]
      exact ⟨by rw [hl]; exact h0, by rw [hl]; exact hmax⟩

theorem obeyed_step {a : Action} (h : c.Obeyed P) (hlive : c.Live) (ha : c.Obeys P a) (hs : c.step a = some c') :
    c'.Obeyed P := by
  cases a with
  | write fd b =>
    simp only [step] at hs
    split at hs
    · rename_i hw
      cases hs
      refine h.setPipe ha (fun hc => ?_) (fun hr => ?_) (h.whole fd)
      · rw [hw.1] at hc
        cases hc
      · rw [← List.append_assoc, h.buffered fd hr]
    · cases hs
  | close fd =>
    simp only [step] at hs
    split at hs
    · cases hs
      exact h.setPipe (h.wrote fd) (fun _ => ha) (h.buffered fd) (h.whole fd)
    · cases hs
  | exit code =>
    simp only [step] at hs
    split at hs
    · cases hs
      exact ⟨h.wrote, h.closed, fun code' hcode => (Option.some.inj hcode).symm.trans ha, h.buffered, h.whole, h.ok⟩
    · cases hs
  | read fd n =>
    simp only [step] at hs
    split at hs
    · rename_i hn
      cases hs
      exact h.send (hlive.rx hn.1) hn.1 hn.2.1 hn.2.2.1 hn.2.2.2
    · cases hs
  | eof fd =>
    simp only [step] at hs
    split at hs
    · rename_i he
      obtain ⟨hr, hbuf, hw⟩ := he
      cases hs
      refine h.setPipe (h.wrote fd) (h.closed fd) (fun hr' => by cases hr') fun _ => ?_
      -- the pipe is empty and closed
      have hall := h.buffered fd hr
      rw [hbuf, List.append_nil] at hall
      exact hall.trans (h.closed fd hw)
    · cases hs
  | readErr fd => exact ha.elim

/-- **A command that obeys its program can always do something**, until both pipes are read to their end and it
has exited. -/
theorem obeys_enabled (h : c.Obeyed P) {fd : Fd} (hr : (c.pipe fd).reader = true) :
    ∃ a c', c.Obeys P a ∧ c.step a = some c' := by
  cases hw : (c.pipe fd).writer with
  | true =>
    obtain ⟨b, hb⟩ := h.wrote fd
    by_cases hb0 : b = []
    · rw [hb0, List.append_nil] at hb
      exact ⟨.close fd, _, hb, if_pos hw⟩
    · exact ⟨.write fd b, _, ⟨[], by rw [List.append_nil, hb]⟩, if_pos ⟨hw, hb0⟩⟩
  | false =>
    by_cases hbuf : (c.pipe fd).buf = []
    · exact ⟨.eof fd, _, trivial, if_pos ⟨hr, hbuf, hw⟩⟩
    · have hlen := List.length_pos_iff.2 hbuf
      exact ⟨.read fd 1, _, trivial, if_pos ⟨hr, Nat.one_pos, by decide, hlen⟩⟩

end Child

namespace Session

open State

variable {X : Ext} {E : Env} {P : Program} {s s' : State X}

/-- Nothing fails outside the task, no timeout fires, and the commands obey the program. -/
def Smooth (P : Program) (s : State X) : Action → Prop
  | .timeout | .ioError _ | .spawnErr _ | .waitErr _ => False
  | .child a => ∀ c, s.child = some c → c.Obeys P a
  | .leftover i a => ∀ c, s.leftover[i]? = some c → c.Obeys P a
  | _ => True

def smooth : Regime := ⟨False, False, fun _ => False, fun _ => False⟩

theorem Smooth.allows {a : Action} (h : Smooth P s a) : smooth.Allows s a := by
  cases a with
  | timeout => exact h.elim
  | ioError e => exact h
  | spawnErr e => exact h
  | waitErr e => exact h
  | _ => trivial

def AllObey (P : Program) (s : State X) : Prop := ∀ c ∈ children s, c.Obeyed P

def AllLive (s : State X) : Prop := ∀ c ∈ children s, c.Live

theorem allObey_step {a : Action} (h : AllObey P s) (hlive : AllLive s) (ha : Smooth P s a) (hs : step E s a = some s') :
    AllObey P s' := by
  rcases children_step hs with ⟨argv, rfl, hcs, -⟩ | ⟨i, c, c', b, hc, hb, hcs, -, hwho⟩ | ⟨hcs, -⟩
  · intro c hc
    rw [hcs] at hc
    rcases List.mem_append.1 hc with hc | hc
    · exact h c hc
    · rw [List.mem_singleton.1 hc]
      exact Child.obeyed_spawn P argv
  · have hob : c.Obeys P b := by
      rcases hwho with ⟨rfl, hchild, -⟩ | ⟨rfl, hleft⟩
      · exact ha c hchild
      · exact ha c hleft
    have hmem := List.mem_of_getElem? hc
    intro d hd
    rw [hcs] at hd
    rcases List.mem_or_eq_of_mem_set hd with hd | rfl
    · exact h d hd
    · exact Child.obeyed_step (h c hmem) (hlive c hmem) hob hb
  · intro c hc
    have hm : Child.told c ∈ (children s').map Child.told := List.mem_map_of_mem hc
    rw [hcs, List.mem_map] at hm
    obtain ⟨d, hd, hdc⟩ := hm
    have hob : (Child.told d).Obeyed P := ⟨(h d hd).1, (h d hd).2, (h d hd).3, (h d hd).4, (h d hd).5, (h d hd).6⟩
    rw [hdc] at hob
    exact ⟨hob.1, hob.2, hob.3, hob.4, hob.5, hob.6⟩

/-! ## The receiver -/

/-- The receiver of the running command is there. -/
def Receiving (s : State X) : Prop := s.pc.inExec = true → ∃ c, s.child = some c ∧ c.rx = true

theorem receiving_of_not (h : s.pc.inExec = false) : Receiving s := fun hin => by rw [h] at hin; cases hin

theorem receiving_beginWrite {f : Frame} {k : Cont} (h : ∃ c, s.child = some c ∧ c.rx = true) :
    Receiving (s.beginWrite f k) := by
  rcases beginWrite_cases s f k with ⟨-, heq⟩ | ⟨e, heq⟩ <;> rw [heq]
  · exact fun _ => h
  · exact receiving_of_not rfl

/-- A write that is not a part of `exec`. -/
theorem receiving_beginWrite_out {f : Frame} {k : Cont} (hk : (Pc.write f [] k).inExec = false) :
    Receiving (s.beginWrite f k) := by
  rcases beginWrite_cases s f k with ⟨-, heq⟩ | ⟨e, heq⟩ <;> rw [heq]
  · refine receiving_of_not ?_
    cases k <;> first | rfl | cases hk
  · exact receiving_of_not rfl

theorem receiving_step {a : Action} (h : Receiving s) (hs : step E s a = some s') : Receiving s' := by
  cases step_cases hs with
  | clientSend b he => exact h
  | clientClose => exact h
  | child a c c' hc hstep =>
    intro hin
    obtain ⟨d, hd, hrx⟩ := h hin
    rw [hc, Option.some.injEq] at hd
    subst hd
    exact ⟨c', rfl, (Child.step_keeps hstep).2.1.trans hrx⟩
  | leftover i a c c' hc hstep => exact h
  | start hpc =>
    unfold Session.start
    split
    · exact receiving_of_not rfl
    · exact receiving_beginWrite_out rfl
  | readAuth f r hpc hr =>
    rcases handleAuth_cases E ({ s with inbuf := r }.emit (.read f)) f with ⟨entry, ar, -, heq⟩ | ⟨g, heq⟩ | ⟨r, heq⟩ <;>
      rw [heq]
    · exact receiving_beginWrite_out rfl
    · exact receiving_beginWrite_out rfl
    · exact receiving_of_not rfl
  | readServe f r hpc hr =>
    rcases handleFrame_cases E ({ s with inbuf := r }.emit (.read f)) f with ⟨shell, -, -, heq⟩ | ⟨g, k, hk, heq⟩ |
      ⟨r, heq⟩ <;> rw [heq]
    · exact receiving_of_not rfl
    · rcases hk with rfl | rfl <;> exact receiving_beginWrite_out rfl
    · exact receiving_of_not rfl
  | readFail r e hpc hr he => exact receiving_of_not rfl
  | put n f rest k hpc h0 hn =>
    intro hin
    refine h ?_
    rw [hpc]
    cases k <;> first | rfl | cases hin
  | flushed f k hpc =>
    cases k with
    | forward => exact fun _ => h (by rw [hpc]; rfl)
    | _ => exact receiving_of_not rfl
  | ioError e hpc => exact receiving_of_not rfl
  | spawnOk argv hpc => exact fun _ => ⟨_, rfl, rfl⟩
  | spawnErr e argv hpc => exact receiving_of_not rfl
  | recv c ch q hpc hc hq =>
    obtain ⟨d, hd, hrx⟩ := h (by rw [hpc]; rfl)
    rw [hc, Option.some.injEq] at hd
    subst hd
    exact receiving_beginWrite ⟨_, rfl, hrx⟩
  | recvNone c hpc hc hq hg => exact fun _ => h (by rw [hpc]; rfl)
  | waitOk c code hpc hc hst => exact receiving_beginWrite (h (by rw [hpc]; rfl))
  | waitErr e hpc => exact receiving_of_not rfl
  | timeout hpc => exact receiving_beginWrite_out rfl

end Session

end Sao
