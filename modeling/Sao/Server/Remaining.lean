import Mathlib.Algebra.BigOperators.Group.List.Basic
import Sao.Server.Program

/-!
# How much a session has left to do

A command is priced by the bytes it has still to write and its reader tasks have still to send, a session by
its bytes not yet read and by the frame it writes.

* `keeps_step` — what the session's own steps leave alone.
* `remaining_step` — every step of the session's own uses something up, unless something fails outside
  or a timeout fires.
* `own_enabled` — until it is done a session can take one, unless it waits for its client.
-/

namespace Sao

variable {P : Program}

/-- The price of a frame: each of its bytes, the flush, and a step before it. -/
def FRAME_COST : Nat := 3 * MAX_FRAME_LEN + 2

theorem frame_cost_eq : FRAME_COST = 3 * MAX_FRAME_LEN + 2 := rfl

namespace Child

def pipeRemaining (P : Program) (fd : Fd) (p : Pipe) : Nat :=
  ((P.output fd).length - p.wrote.length) * (FRAME_COST + 2) + p.buf.length * (FRAME_COST + 1) +
    (if p.reader then 1 else 0) + (if p.writer then 1 else 0)

def remaining (P : Program) (c : Child) : Nat :=
  pipeRemaining P .out c.stdout + pipeRemaining P .err c.stderr + c.queue.length * FRAME_COST +
    (if c.status = none then 1 else 0)

variable {c c' : Child}

theorem remaining_setPipe (c : Child) (fd : Fd) (p : Pipe) :
    (c.setPipe fd p).remaining P + pipeRemaining P fd (c.pipe fd) = c.remaining P + pipeRemaining P fd p := by
  cases fd with
  | out =>
    show pipeRemaining P .out p + pipeRemaining P .err c.stderr + c.queue.length * FRAME_COST +
      (if c.status = none then 1 else 0) + pipeRemaining P .out c.stdout = _
    unfold remaining
    omega
  | err =>
    show pipeRemaining P .out c.stdout + pipeRemaining P .err p + c.queue.length * FRAME_COST +
      (if c.status = none then 1 else 0) + pipeRemaining P .err c.stderr = _
    unfold remaining
    omega

theorem remaining_setPipe_lt {fd : Fd} {p : Pipe} (h : pipeRemaining P fd p < pipeRemaining P fd (c.pipe fd)) :
    (c.setPipe fd p).remaining P < c.remaining P := by
  have := remaining_setPipe (P := P) c fd p
  omega

/-- A chunk costs less than the bytes it was made of. -/
theorem remaining_send {fd : Fd} {n : Nat} (h0 : 0 < n) (hlen : n ≤ (c.pipe fd).buf.length)
    (hr : (c.pipe fd).reader = true) : (c.send fd n).remaining P < c.remaining P := by
  have hmul : ((c.pipe fd).buf.length - n) * (FRAME_COST + 1) + (FRAME_COST + 1) ≤
      (c.pipe fd).buf.length * (FRAME_COST + 1) := by
    rw [← Nat.succ_mul]
    exact Nat.mul_le_mul_right _ (by omega)
  unfold Child.send
  simp only
  split
  · have hset := remaining_setPipe (P := P) c fd { c.pipe fd with buf := (c.pipe fd).buf.drop n }
    generalize hd : c.setPipe fd { c.pipe fd with buf := (c.pipe fd).buf.drop n } = d at hset
    have hqueue : d.queue = c.queue := by rw [← hd, setPipe_queue]
    have hq : Child.remaining P { d with
        queue := c.queue ++ [⟨fd, (c.pipe fd).buf.take n⟩]
        sent := c.sent ++ [⟨fd, (c.pipe fd).buf.take n⟩] } = d.remaining P + FRAME_COST := by
      simp only [remaining, hqueue, List.length_append, List.length_singleton, Nat.succ_mul]
      omega
    simp only [pipeRemaining, List.length_drop] at hset
    rw [hq]
    omega
  · refine remaining_setPipe_lt ?_
    simp only [pipeRemaining, List.length_drop, hr, if_true, Bool.false_eq_true, if_false]
    omega

theorem remaining_step {a : Action} (ha : c.Obeys P a) (hs : c.step a = some c') : c'.remaining P < c.remaining P := by
  cases a with
  | write fd b =>
    simp only [step] at hs
    split at hs
    · rename_i hw
      cases hs
      have hb := List.length_pos_iff.2 hw.2
      have hle := List.IsPrefix.length_le ha
      rw [List.length_append] at hle
      refine remaining_setPipe_lt ?_
      -- the written bytes are cheaper in the pipe
      have hsplit : (P.output fd).length - (c.pipe fd).wrote.length =
          (P.output fd).length - ((c.pipe fd).wrote.length + b.length) + b.length := by omega
      have hcheap : b.length * (FRAME_COST + 2) = b.length * (FRAME_COST + 1) + b.length := Nat.mul_succ _ _
      simp only [pipeRemaining, List.length_append]
      rw [hsplit, Nat.add_mul _ b.length (FRAME_COST + 2), Nat.add_mul _ b.length (FRAME_COST + 1)]
      omega
    · cases hs
  | close fd =>
    simp only [step] at hs
    split at hs
    · rename_i hw
      cases hs
      refine remaining_setPipe_lt ?_
      simp only [pipeRemaining, hw, if_true, Bool.false_eq_true, if_false]
      omega
    · cases hs
  | exit code =>
    simp only [step] at hs
    split at hs
    · rename_i hnone
      cases hs
      simp only [remaining, hnone, if_true, reduceCtorEq, if_false]
      omega
    · cases hs
  | read fd n =>
    simp only [step] at hs
    split at hs
    · rename_i hn
      cases hs
      exact remaining_send hn.2.1 hn.2.2.2 hn.1
    · cases hs
  | eof fd =>
    simp only [step] at hs
    split at hs
    · rename_i he
      cases hs
      refine remaining_setPipe_lt ?_
      simp only [pipeRemaining, he.1, if_true, Bool.false_eq_true, if_false]
      omega
    · cases hs
  | readErr fd => exact ha.elim

end Child

/-- The price of a command that has just been spawned. -/
def Program.cost (P : Program) : Nat := (Child.spawn []).remaining P

/-- The price of a byte of a request: more than all that one request can lead to. -/
def Program.requestCost (P : Program) : Nat := FRAME_COST + P.cost + 6

namespace Session

open State

variable {X : Ext} {E : Env} {s s' : State X}

/-- What the session does, not its client. -/
def Action.Own : Action → Prop
  | .clientSend _ | .clientClose => False
  | _ => True

instance : DecidablePred Action.Own := fun a => by
  cases a <;> first | exact isTrue trivial | exact isFalse id

/-- What the client sees: the session's own steps only add to the stream. -/
structure Keeps (s s' : State X) : Prop where
  received : s'.received = s.received
  eof : s'.eof = s.eof
  out : s.out <+: s'.out

theorem Keeps.of_out (hr : s'.received = s.received) (he : s'.eof = s.eof) (ho : s'.out = s.out) : Keeps s s' :=
  ⟨hr, he, ho ▸ List.prefix_refl _⟩

theorem keeps_beginWrite {t : State X} (h : Keeps s t) (f : Frame) (k : Cont) : Keeps s (t.beginWrite f k) := by
  rcases beginWrite_cases t f k with ⟨-, heq⟩ | ⟨e, heq⟩ <;> rw [heq] <;> exact ⟨h.1, h.2, h.3⟩

theorem keeps_step {a : Action} (ha : a.Own) (h : step E s a = some s') : Keeps s s' := by
  cases step_cases h with
  | clientSend b he => exact ha.elim
  | clientClose => exact ha.elim
  | start hpc =>
    unfold Session.start
    split
    · exact .of_out rfl rfl rfl
    · refine keeps_beginWrite ?_ _ _
      exact .of_out rfl rfl rfl
  | readAuth f r hpc hr =>
    rcases handleAuth_cases E ({ s with inbuf := r }.emit (.read f)) f with ⟨entry, ar, -, heq⟩ | ⟨g, heq⟩ | ⟨e, heq⟩ <;>
      rw [heq]
    · refine keeps_beginWrite ?_ _ _
      exact .of_out rfl rfl rfl
    · refine keeps_beginWrite ?_ _ _
      exact .of_out rfl rfl rfl
    · exact .of_out rfl rfl rfl
  | readServe f r hpc hr =>
    rcases handleFrame_cases E ({ s with inbuf := r }.emit (.read f)) f with ⟨shell, -, -, heq⟩ | ⟨g, k, -, heq⟩ |
      ⟨e, heq⟩ <;> rw [heq]
    · exact .of_out rfl rfl rfl
    · refine keeps_beginWrite ?_ _ _
      exact .of_out rfl rfl rfl
    · exact .of_out rfl rfl rfl
  | put n f rest k hpc h0 hn => exact ⟨rfl, rfl, List.prefix_append _ _⟩
  | flushed f k hpc => cases k <;> exact .of_out rfl rfl rfl
  | recv c ch q hpc hc hq =>
    refine keeps_beginWrite ?_ _ _
    exact .of_out rfl rfl rfl
  | waitOk c code hpc hc hst =>
    refine keeps_beginWrite ?_ _ _
    exact .of_out rfl rfl rfl
  | timeout hpc =>
    refine keeps_beginWrite ?_ _ _
    exact .of_out rfl rfl rfl
  | _ => exact .of_out rfl rfl rfl

def Cont.remaining : Cont → Nat
  | .forward => FRAME_COST + 3
  | .authResponse | .authOk | .serve | .finish | .execEnd | .timedOut => 1

def Pc.remaining (P : Program) : Pc → Nat
  | .start => FRAME_COST + 1
  | .write _ rest k => 3 * rest.length + 1 + k.remaining
  | .awaitAuth | .serve => 1
  | .spawning _ => FRAME_COST + 4 + P.cost
  | .recv => FRAME_COST + 3
  | .wait => FRAME_COST + 2
  | .done _ => 0

def State.remaining (P : Program) (s : State X) : Nat :=
  s.inbuf.length * P.requestCost + s.pc.remaining P + ((children s).map (Child.remaining P)).sum

/-! ## Commands -/

theorem remaining_spawn (argv : List Str) : (Child.spawn argv).remaining P = P.cost := by
  simp only [Program.cost, Child.remaining, Child.spawn]

theorem remaining_told (c : Child) : { c with rx := false }.remaining P = c.remaining P := rfl

theorem sum_dropRx (s : State X) :
    ((children s.dropRx).map (Child.remaining P)).sum = ((children s).map (Child.remaining P)).sum := by
  unfold children State.dropRx
  cases s.child <;> simp [remaining_told]

theorem sum_set {cs : List Child} {i : Nat} {c c' : Child} (hc : cs[i]? = some c)
    (h : c'.remaining P < c.remaining P) :
    ((cs.set i c').map (Child.remaining P)).sum < (cs.map (Child.remaining P)).sum := by
  induction cs generalizing i with
  | nil => simp at hc
  | cons d cs ih =>
    cases i with
    | zero =>
      simp only [List.getElem?_cons_zero, Option.some.injEq] at hc
      subst hc
      simp only [List.set_cons_zero, List.map_cons, List.sum_cons]
      omega
    | succ i =>
      have := ih hc
      simp only [List.set_cons_succ, List.map_cons, List.sum_cons]
      omega

/-! ## One step -/

theorem remaining_finish (s : State X) (r : Except Str Unit) :
    (s.finish r).remaining P = s.inbuf.length * P.requestCost + ((children s).map (Child.remaining P)).sum := by
  have hsum : ((children (s.finish r)).map (Child.remaining P)).sum = ((children s).map (Child.remaining P)).sum :=
    sum_dropRx s
  show (s.finish r).inbuf.length * P.requestCost + 0 + _ = _
  rw [hsum, finish_inbuf, Nat.add_zero]

theorem remaining_beginWrite (s : State X) (f : Frame) (k : Cont) :
    (s.beginWrite f k).remaining P + 1 ≤ s.inbuf.length * P.requestCost + FRAME_COST + k.remaining +
      ((children s).map (Child.remaining P)).sum ∧ (s.beginWrite f k).out = s.out := by
  rcases beginWrite_cases s f k with ⟨hf, heq⟩ | ⟨e, heq⟩ <;> rw [heq]
  · have hlen := length_encode_le hf
    have hcost := frame_cost_eq
    refine ⟨?_, rfl⟩
    show s.inbuf.length * P.requestCost + (3 * (encode f).length + 1 + k.remaining) +
      ((children s).map (Child.remaining P)).sum + 1 ≤ _
    omega
  · have hcost := frame_cost_eq
    rw [remaining_finish]
    exact ⟨by omega, rfl⟩

/-- A frame read pays for all that can come of it. -/
theorem request_pays {n m : Nat} (h : n < m) (P : Program) :
    n * P.requestCost + FRAME_COST + P.cost + 6 ≤ m * P.requestCost := by
  have := Nat.mul_le_mul_right P.requestCost (Nat.succ_le_of_lt h)
  rw [Nat.succ_mul] at this
  unfold Program.requestCost at this ⊢
  omega

section Read

variable {f : Frame} {r : Bytes} (hr : readFrame DEFAULT_MAX_PAYLOAD_LEN s.inbuf = .ok (f, r))
include hr

theorem remaining_readAuth (hpc : s.pc = .awaitAuth) :
    (handleAuth E ({ s with inbuf := r }.emit (.read f)) f).remaining P +
      2 * (handleAuth E ({ s with inbuf := r }.emit (.read f)) f).out.length < s.remaining P + 2 * s.out.length := by
  have hpay := request_pays (readFrame_length hr) P
  have hs : s.remaining P = s.inbuf.length * P.requestCost + 1 + ((children s).map (Child.remaining P)).sum := by
    rw [State.remaining, hpc]
    rfl
  generalize ht : State.emit { s with inbuf := r } (.read f) = t
  have hin : t.inbuf = r := by rw [← ht]; rfl
  have hout : t.out = s.out := by rw [← ht]; rfl
  have hcs : children t = children s := by rw [← ht]; rfl
  rcases handleAuth_cases E t f with ⟨entry, ar, -, heq⟩ | ⟨g, heq⟩ | ⟨e, heq⟩ <;> rw [heq]
  · have hw := remaining_beginWrite (P := P) (t.emit (.authed entry ar.signature)) (authOk E entry) .authOk
    rw [emit_inbuf, emit_out, show children (t.emit (.authed entry ar.signature)) = children t from rfl, hin, hout, hcs,
      Cont.remaining] at hw
    rw [hw.2]
    omega
  · have hw := remaining_beginWrite (P := P) t g .finish
    rw [hin, hout, hcs, Cont.remaining] at hw
    rw [hw.2]
    omega
  · rw [remaining_finish, finish_out, hin, hout, hcs]
    omega

theorem remaining_readServe (hpc : s.pc = .serve) :
    (handleFrame E ({ s with inbuf := r }.emit (.read f)) f).remaining P +
      2 * (handleFrame E ({ s with inbuf := r }.emit (.read f)) f).out.length < s.remaining P + 2 * s.out.length := by
  have hpay := request_pays (readFrame_length hr) P
  have hs : s.remaining P = s.inbuf.length * P.requestCost + 1 + ((children s).map (Child.remaining P)).sum := by
    rw [State.remaining, hpc]
    rfl
  generalize ht : State.emit { s with inbuf := r } (.read f) = t
  have hin : t.inbuf = r := by rw [← ht]; rfl
  have hout : t.out = s.out := by rw [← ht]; rfl
  have hcs : children t = children s := by rw [← ht]; rfl
  rcases handleFrame_cases E t f with ⟨shell, -, -, heq⟩ | ⟨g, k, hk, heq⟩ | ⟨e, heq⟩ <;> rw [heq]
  · show t.inbuf.length * P.requestCost + (FRAME_COST + 4 + P.cost) + ((children t).map (Child.remaining P)).sum +
      2 * t.out.length < _
    rw [hin, hout, hcs]
    omega
  · have hw := remaining_beginWrite (P := P) t g k
    have hk1 : k.remaining = 1 := by rcases hk with rfl | rfl <;> rfl
    rw [hin, hout, hcs, hk1] at hw
    rw [hw.2]
    omega
  · rw [remaining_finish, finish_out, hin, hout, hcs]
    omega

end Read

theorem remaining_step {a : Action} (ha : a.Own) (hsm : Smooth P s a) (h : step E s a = some s') :
    s'.remaining P + 2 * s'.out.length < s.remaining P + 2 * s.out.length := by
  have hcost := frame_cost_eq
  cases step_cases h with
  | clientSend b he => exact ha.elim
  | clientClose => exact ha.elim
  | child b c c' hc hstep =>
    have := Child.remaining_step (hsm c hc) hstep
    simp only [State.remaining, children, hc, List.map_append, List.sum_append, Option.toList_some, List.map_cons,
      List.map_nil, List.sum_cons, List.sum_nil]
    omega
  | leftover i b c c' hc hstep =>
    have := sum_set hc (Child.remaining_step (hsm c hc) hstep)
    simp only [State.remaining, children, List.map_append, List.sum_append]
    omega
  | start hpc =>
    have hs : s.remaining P = s.inbuf.length * P.requestCost + (FRAME_COST + 1) +
        ((children s).map (Child.remaining P)).sum := by rw [State.remaining, hpc]; rfl
    unfold Session.start
    split
    · rw [remaining_finish, finish_out]
      omega
    · rename_i keys hkeys
      have hw : (State.beginWrite { s with keys } (challenge E) .authResponse).remaining P + 1 ≤
          s.inbuf.length * P.requestCost + FRAME_COST + 1 + ((children s).map (Child.remaining P)).sum ∧
          (State.beginWrite { s with keys } (challenge E) .authResponse).out = s.out := remaining_beginWrite _ _ _
      rw [hw.2]
      omega
  | readAuth f r hpc hr => exact remaining_readAuth hr hpc
  | readServe f r hpc hr => exact remaining_readServe hr hpc
  | readFail r e hpc hr he =>
    have hs : s.remaining P = s.inbuf.length * P.requestCost + 1 + ((children s).map (Child.remaining P)).sum := by
      rcases hpc with hpc | hpc <;> rw [State.remaining, hpc] <;> rfl
    rw [remaining_finish, finish_out]
    omega
  | put n f rest k hpc h0 hn =>
    simp only [State.remaining, hpc, Pc.remaining, List.length_append, List.length_take, List.length_drop,
      Nat.min_eq_left hn, show children { s with out := s.out ++ rest.take n, pc := .write f (rest.drop n) k } =
        children s from rfl]
    omega
  | flushed f k hpc =>
    have hs : s.remaining P = s.inbuf.length * P.requestCost + (1 + k.remaining) +
        ((children s).map (Child.remaining P)).sum := by rw [State.remaining, hpc]; simp [Pc.remaining]
    have hdrop := sum_dropRx (P := P) (s.emit (.wrote f))
    rw [show children (s.emit (.wrote f)) = children s from rfl] at hdrop
    cases k with
    | finish =>
      rw [show afterWrite s f .finish = (s.emit (.wrote f)).finish (.ok ()) from rfl, remaining_finish, finish_out]
      show s.inbuf.length * P.requestCost + ((children s).map (Child.remaining P)).sum + 2 * s.out.length < _
      omega
    | execEnd =>
      show s.inbuf.length * P.requestCost + 1 + ((children (s.emit (.wrote f)).dropRx).map (Child.remaining P)).sum +
        2 * s.out.length < _
      rw [hs, hdrop, Cont.remaining]
      omega
    | timedOut =>
      show s.inbuf.length * P.requestCost + 1 + ((children (s.emit (.wrote f)).dropRx).map (Child.remaining P)).sum +
        2 * s.out.length < _
      rw [hs, hdrop, Cont.remaining]
      omega
    | forward =>
      show s.inbuf.length * P.requestCost + (FRAME_COST + 3) + ((children s).map (Child.remaining P)).sum +
        2 * s.out.length < _
      rw [hs, Cont.remaining]
      omega
    | _ =>
      show s.inbuf.length * P.requestCost + 1 + ((children s).map (Child.remaining P)).sum + 2 * s.out.length < _
      rw [hs, Cont.remaining]
      omega
  | ioError e hpc => exact hsm.elim
  | spawnOk argv hpc =>
    have hs : s.remaining P = s.inbuf.length * P.requestCost + (FRAME_COST + 4 + P.cost) +
        ((children s).map (Child.remaining P)).sum := by rw [State.remaining, hpc]; rfl
    have hsum : ((children (spawned s argv)).map (Child.remaining P)).sum =
        ((children s).map (Child.remaining P)).sum + P.cost := by
      simp only [children, spawned, Option.toList_some, List.map_append, List.map_cons, List.map_nil, List.sum_append,
        List.sum_cons, List.sum_nil, remaining_spawn, Nat.add_zero]
    show s.inbuf.length * P.requestCost + (FRAME_COST + 3) +
      ((children (spawned s argv)).map (Child.remaining P)).sum + 2 * s.out.length < _
    rw [hs, hsum]
    omega
  | spawnErr e argv hpc => exact hsm.elim
  | recv c ch q hpc hc hq =>
    have hs : s.remaining P = s.inbuf.length * P.requestCost + (FRAME_COST + 3) +
        ((children s).map (Child.remaining P)).sum := by rw [State.remaining, hpc]; rfl
    have hsum : ((children s).map (Child.remaining P)).sum =
        ((children { s with child := some { c with queue := q } }).map (Child.remaining P)).sum + FRAME_COST := by
      simp only [children, hc, Option.toList_some, List.map_append, List.map_cons, List.map_nil, List.sum_append,
        List.sum_cons, List.sum_nil, Child.remaining, hq, List.length_cons, Nat.succ_mul]
      omega
    generalize ht : ({ s with child := some { c with queue := q } } : State X) = t at hsum
    have hin : t.inbuf = s.inbuf := by rw [← ht]
    have hout : t.out = s.out := by rw [← ht]
    have hw := remaining_beginWrite (P := P) t (chunkFrame ch) .forward
    rw [Cont.remaining, hin, hout] at hw
    rw [hw.2, hs, hsum]
    omega
  | recvNone c hpc hc hq hg =>
    have hs : s.remaining P = s.inbuf.length * P.requestCost + (FRAME_COST + 3) +
        ((children s).map (Child.remaining P)).sum := by rw [State.remaining, hpc]; rfl
    show s.inbuf.length * P.requestCost + (FRAME_COST + 2) + ((children s).map (Child.remaining P)).sum +
      2 * s.out.length < _
    omega
  | waitOk c code hpc hc hst =>
    have hs : s.remaining P = s.inbuf.length * P.requestCost + (FRAME_COST + 2) +
        ((children s).map (Child.remaining P)).sum := by rw [State.remaining, hpc]; rfl
    have hw := remaining_beginWrite (P := P) (s.emit .reaped) (exitFrame (code.getD (-1))) .execEnd
    rw [emit_inbuf, emit_out, Cont.remaining, show children (s.emit .reaped) = children s from rfl] at hw
    rw [hw.2]
    omega
  | waitErr e hpc => exact hsm.elim
  | timeout hpc => exact hsm.elim

/-! ## Going on -/

theorem read_enabled {f : Frame} {r : Bytes} (hr : readFrame DEFAULT_MAX_PAYLOAD_LEN s.inbuf = .ok (f, r))
    (handle : State X → Frame → State X) (eof : Except Str Unit) : ∃ s', read s handle eof = some s' := by
  unfold read
  rw [hr]
  exact ⟨_, rfl⟩

/-- The command takes a step. -/
theorem child_enabled {c c' : Child} {b : Child.Action} (hc : s.child = some c) (hb : c.Obeys P b)
    (hs : c.step b = some c') : ∃ a s', a.Own ∧ Smooth P s a ∧ step E s a = some s' := by
  refine ⟨.child b, { s with child := some c' }, trivial, fun d hd => ?_, ?_⟩
  · rw [hc, Option.some.injEq] at hd
    exact hd ▸ hb
  · simp only [step, hc, hs, Option.map_some]

/-- **Until it is done a session can go on**, unless it waits for its client. -/
theorem own_enabled (hobey : AllObey P s) (hrx : Receiving s) (hd : ∀ r, s.pc ≠ .done r)
    (hread : s.pc = .awaitAuth ∨ s.pc = .serve → ∃ f r, readFrame DEFAULT_MAX_PAYLOAD_LEN s.inbuf = .ok (f, r)) :
    ∃ a s', a.Own ∧ Smooth P s a ∧ step E s a = some s' := by
  have hmem : ∀ {c : Child}, s.child = some c → c ∈ children s := fun hc => by simp [children, hc]
  cases hpc : s.pc with
  | start => exact ⟨.start, _, trivial, trivial, by simp only [step, hpc]; rfl⟩
  | write f rest k =>
    cases rest with
    | nil => exact ⟨.flushed, _, trivial, trivial, by simp only [step, hpc]; rfl⟩
    | cons b rest =>
      refine ⟨.put 1, { s with out := s.out ++ (b :: rest).take 1, pc := .write f ((b :: rest).drop 1) k }, trivial,
        trivial, ?_⟩
      simp only [step, hpc]
      exact if_pos ⟨Nat.one_pos, by simp⟩
  | awaitAuth =>
    obtain ⟨f, r, hr⟩ := hread (Or.inl hpc)
    obtain ⟨s', hs'⟩ := read_enabled hr (handleAuth E) (.error ProtocolError.unexpectedEof.display)
    exact ⟨.read, s', trivial, trivial, by simp only [step, hpc, hs']⟩
  | serve =>
    obtain ⟨f, r, hr⟩ := hread (Or.inr hpc)
    obtain ⟨s', hs'⟩ := read_enabled hr (handleFrame E) (.ok ())
    exact ⟨.read, s', trivial, trivial, by simp only [step, hpc, hs']⟩
  | spawning argv => exact ⟨.spawnOk, _, trivial, trivial, by simp only [step, hpc]; rfl⟩
  | recv =>
    obtain ⟨c, hc, -⟩ := hrx (by rw [hpc]; rfl)
    cases hq : c.queue with
    | cons ch q => exact ⟨.recv, _, trivial, trivial, by simp only [step, hpc, hc, recv, hq]; rfl⟩
    | nil =>
      by_cases hgone : c.sendersGone
      · refine ⟨.recvNone, { s with pc := .wait }, trivial, trivial, ?_⟩
        simp only [step, hpc, hc]
        exact if_pos ⟨hq, hgone⟩
      · rw [Child.sendersGone_iff] at hgone
        push Not at hgone
        obtain ⟨fd, hfd⟩ := hgone
        obtain ⟨b, c', hb, hs⟩ := Child.obeys_enabled (hobey c (hmem hc)) (by simpa using hfd)
        exact child_enabled hc hb hs
  | wait =>
    obtain ⟨c, hc, -⟩ := hrx (by rw [hpc]; rfl)
    cases hst : c.status with
    | some code => exact ⟨.waitOk, _, trivial, trivial, by simp only [step, hpc, hc, waitOk, hst]; rfl⟩
    | none =>
      have hexit : c.step (.exit P.code) = some { c with status := some P.code } := if_pos hst
      exact child_enabled hc (b := .exit P.code) rfl hexit
  | done r => exact absurd hpc (hd r)

end Session

end Sao
