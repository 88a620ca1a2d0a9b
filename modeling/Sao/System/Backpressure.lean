import Sao.Lib.Simulation
import Sao.System.Fidelity

/-!
# Buffers of any size

The transport between the two ends holds so many bytes in either direction and no more: an end that
has filled it waits in `write_all`. An end takes from it only in `read_exact`, and only what that asks for.

| here | there |
| --- | --- |
| `Caps`        | the buffers of the sockets and of the TLS streams, in bytes |
| `Room`        | `write_all` puts what there is room for; `read_exact` takes what is missing of its buffer |
| `stepWithin`  | the two ends over such a transport |

* `bounded_step` — no buffer overflows, and neither end holds more than one frame.
* `Coupled.goes_on_within` — with a single byte of room in either direction the two never block each other.
* `fidelity_within` — so every run over such a transport delivers what the command wrote.
-/

namespace Sao

/-! ## What a step puts and takes -/

namespace Session

variable {X : Ext} {E : Env} {s s' : State X}

/-- How many bytes the action puts on the stream. -/
def Action.puts : Action → Nat
  | .put n => n
  | _ => 0

/-- The bytes on the stream grow by no more than `n`, and those taken and not used do not grow. -/
def Uses (n : Nat) (s s' : State X) : Prop :=
  s'.out.length ≤ s.out.length + n ∧ s'.inbuf.length ≤ s.inbuf.length

theorem Uses.of_eq {n : Nat} (ho : s'.out = s.out) (hi : s'.inbuf.length ≤ s.inbuf.length) : Uses n s s' :=
  ⟨by rw [ho]; omega, hi⟩

theorem Uses.beginWrite {n : Nat} {t : State X} (h : Uses n s t) (f : Frame) (k : Cont) :
    Uses n s (t.beginWrite f k) := by
  rcases beginWrite_cases t f k with ⟨-, heq⟩ | ⟨e, heq⟩ <;> rw [heq] <;> exact h

theorem uses_step {a : Action} (ha : a.Own) (h : step E s a = some s') : Uses a.puts s s' := by
  have hread : ∀ {f : Frame} {r : Bytes}, readFrame DEFAULT_MAX_PAYLOAD_LEN s.inbuf = .ok (f, r) →
      r.length ≤ s.inbuf.length := fun hr => Nat.le_of_lt (readFrame_length hr)
  cases step_cases h with
  | clientSend b he => exact ha.elim
  | clientClose => exact ha.elim
  | start hpc =>
    unfold Session.start
    split
    · exact .of_eq rfl (Nat.le_refl _)
    · exact Uses.beginWrite (.of_eq rfl (Nat.le_refl _)) _ _
  | readAuth f r hpc hr =>
    have hin := hread hr
    rcases handleAuth_cases E ({ s with inbuf := r }.emit (.read f)) f with ⟨entry, ar, -, heq⟩ | ⟨g, heq⟩ | ⟨e, heq⟩ <;>
      rw [heq]
    · refine Uses.beginWrite ?_ _ _
      exact .of_eq rfl hin
    · refine Uses.beginWrite ?_ _ _
      exact .of_eq rfl hin
    · exact .of_eq rfl hin
  | readServe f r hpc hr =>
    have hin := hread hr
    rcases handleFrame_cases E ({ s with inbuf := r }.emit (.read f)) f with ⟨shell, -, -, heq⟩ | ⟨g, k, -, heq⟩ |
      ⟨e, heq⟩ <;> rw [heq]
    · exact .of_eq rfl hin
    · refine Uses.beginWrite ?_ _ _
      exact .of_eq rfl hin
    · exact .of_eq rfl hin
  | put n f rest k hpc h0 hn =>
    refine ⟨?_, Nat.le_refl _⟩
    show (s.out ++ rest.take n).length ≤ s.out.length + n
    rw [List.length_append, List.length_take]
    omega
  | flushed f k hpc => cases k <;> exact .of_eq rfl (Nat.le_refl _)
  | recv c ch q hpc hc hq => exact Uses.beginWrite (.of_eq rfl (Nat.le_refl _)) _ _
  | waitOk c code hpc hc hst => exact Uses.beginWrite (.of_eq rfl (Nat.le_refl _)) _ _
  | timeout hpc => exact Uses.beginWrite (.of_eq rfl (Nat.le_refl _)) _ _
  | _ => exact .of_eq rfl (Nat.le_refl _)

/-- Bytes are put only by an end that is writing. -/
theorem puts_eq_zero {a : Action} (hrest : s.pc.rest = []) (h : step E s a = some s') : a.puts = 0 := by
  cases step_cases h with
  | put n f rest k hpc h0 hn =>
    rw [hpc] at hrest
    rw [show rest = [] from hrest] at hn
    exact absurd hn (by simp; omega)
  | _ => rfl

end Session

namespace ClientSession

variable {X : Ext} {E : Env} {s s' : State}

def Action.puts : Action → Nat
  | .put n => n
  | _ => 0

def Pc.reading : Pc → Bool
  | .awaitChallenge _ | .awaitResult | .replies => true
  | _ => false

theorem Pc.Awaits.reading {pc : Pc} (h : pc.Awaits) : pc.reading = true := by
  rcases h with ⟨sk, rfl⟩ | rfl | rfl <;> rfl

/-- What a step of the client's own puts and takes. -/
theorem puts_step {a : Action} (ha : a.Own) (h : step X E s a = some s') :
    s'.out.length ≤ s.out.length + a.puts ∧ s'.inbuf.length ≤ s.inbuf.length := by
  refine ⟨?_, (uses_step ha h).inbuf⟩
  cases step_cases h with
  | serverSend b he => exact ha.elim
  | serverClose => exact ha.elim
  | readChallenge sk f r hpc hr =>
    rcases answerChallenge_cases X sk ({ s with inbuf := r }.emit (.read f)) f with ⟨_, _, -, heq⟩ | ⟨t, heq⟩ <;>
      rw [heq]
    · rw [(remaining_beginWrite _ _).1]
      exact Nat.le_add_right _ _
    · exact Nat.le_add_right _ _
  | readResult f r hpc hr =>
    rcases handleResult_cases X E.shellLine ({ s with inbuf := r }.emit (.read f)) f with ⟨_, -, -, -, heq⟩ | ⟨t, heq⟩ <;>
      rw [heq]
    · rw [(remaining_beginWrite _ _).1]
      exact Nat.le_add_right _ _
    · exact Nat.le_add_right _ _
  | readReply a f r hpc hr =>
    rcases handleReply_cases X ({ s with inbuf := r }.emit (.read f)) f with ⟨raw, hmt, -, heq⟩ | ⟨code, -, heq⟩ |
      ⟨t, heq⟩ <;> rw [heq]
    · rw [writeStd_streams _ hmt]
      exact Nat.le_add_right _ _
    · exact Nat.le_add_right _ _
    · exact Nat.le_add_right _ _
  | put n f rest k hpc h0 hn =>
    show (s.out ++ rest.take n).length ≤ s.out.length + n
    rw [List.length_append, List.length_take]
    omega
  | flushed f k hpc => cases k <;> exact Nat.le_add_right _ _
  | _ => exact Nat.le_add_right _ _

theorem puts_eq_zero {a : Action} (hrest : s.pc.rest = []) (h : step X E s a = some s') : a.puts = 0 := by
  cases a with
  | put n =>
    simp only [step] at h
    split at h
    · rename_i f rest k hpc
      rw [hpc] at hrest
      split at h
      · rename_i hn
        rw [show rest = [] from hrest] at hn
        exact absurd hn.2 (by simp; omega)
      · cases h
    · cases h
  | _ => rfl

end ClientSession

/-! ## The two ends over bounded buffers -/

namespace System

structure Caps where
  toServer : Nat
  toClient : Nat

variable {X : Ext}

/-- There is room for what is put, and no more arrives than a `read_exact` asks for. -/
def Room (cap : Caps) (s : Joint X) : Move → Prop
  | .server a => s.toClient.length + a.puts ≤ cap.toClient
  | .client a => s.toServer.length + a.puts ≤ cap.toServer
  | .toServer n => (s.server.pc = .awaitAuth ∨ s.server.pc = .serve) ∧ n ≤ wanted DEFAULT_MAX_PAYLOAD_LEN s.server.inbuf
  | .toClient n => s.client.pc.reading = true ∧ n ≤ wanted DEFAULT_MAX_PAYLOAD_LEN s.client.inbuf
  | .closeServer | .closeClient => True

instance (cap : Caps) (s : Joint X) (m : Move) : Decidable (Room cap s m) :=
  match m with
  | .server _ | .client _ => inferInstanceAs (Decidable (_ ≤ _))
  | .toServer _ => inferInstanceAs (Decidable ((_ ∨ _) ∧ _ ≤ _))
  | .toClient _ => inferInstanceAs (Decidable (_ = _ ∧ _ ≤ _))
  | .closeServer | .closeClient => isTrue trivial

variable (cap : Caps) (E : Session.Env) (C : ClientSession.Env)

def stepWithin : Joint X → Move → Option (Joint X) := Lts.guarded (Room cap) (Joint.step E C)

/-- The state after a run over such a transport. -/
def runWithin (s : Joint X) (ms : List Move) : Option (Joint X) := Lts.run (stepWithin cap E C) s ms

/-- No buffer holds more than it can, and no end more than one frame. -/
structure Bounded (s : Joint X) : Prop where
  toServer : s.toServer.length ≤ cap.toServer
  toClient : s.toClient.length ≤ cap.toClient
  server : s.server.inbuf.length ≤ MAX_FRAME_LEN
  client : s.client.inbuf.length ≤ MAX_FRAME_LEN

variable {cap E C} {s s' : Joint X}

theorem bounded_init : Bounded cap (Joint.init : Joint X) :=
  ⟨Nat.zero_le _, Nat.zero_le _, Nat.zero_le _, Nat.zero_le _⟩

theorem length_toServer (s : Joint X) : s.toServer.length = s.client.out.length - s.server.received.length :=
  List.length_drop

theorem length_toClient (s : Joint X) : s.toClient.length = s.server.out.length - s.client.received.length :=
  List.length_drop

/-- What `read_exact` asks for fits in one frame. -/
theorem length_taken {n : Nat} {inbuf new : Bytes} (hin : inbuf.length ≤ MAX_FRAME_LEN)
    (hn : n ≤ wanted DEFAULT_MAX_PAYLOAD_LEN inbuf) (hnew : new.length ≤ n) : (inbuf ++ new).length ≤ MAX_FRAME_LEN := by
  rw [List.length_append]
  unfold MAX_FRAME_LEN at hin ⊢
  rcases wanted_le DEFAULT_MAX_PAYLOAD_LEN inbuf with hw | hw
  · omega
  · omega

theorem bounded_step {m : Move} (hi : Bounded cap s) (hs : stepWithin cap E C s m = some s') : Bounded cap s' := by
  obtain ⟨hroom, hs⟩ := Lts.guarded_eq_some.1 hs
  have h1 := hi.toServer
  have h2 := hi.toClient
  rw [length_toServer] at h1
  rw [length_toClient] at h2
  cases Joint.step_cases hs with
  | server a t ha hstep =>
    obtain ⟨hout, hin⟩ := Session.uses_step ha hstep
    have hk := Session.keeps_step ha hstep
    have hr : s.toClient.length + a.puts ≤ cap.toClient := hroom
    rw [length_toClient] at hr
    refine ⟨?_, ?_, Nat.le_trans hin hi.server, hi.client⟩
    · rw [length_toServer]
      show s.client.out.length - t.received.length ≤ _
      rw [hk.received]
      exact h1
    · rw [length_toClient]
      show t.out.length - s.client.received.length ≤ _
      omega
  | client a u ha hstep =>
    obtain ⟨hout, hin⟩ := ClientSession.puts_step ha hstep
    have hk := ClientSession.keeps_step ha hstep
    have hr : s.toServer.length + a.puts ≤ cap.toServer := hroom
    rw [length_toServer] at hr
    refine ⟨?_, ?_, hi.server, Nat.le_trans hin hi.client⟩
    · rw [length_toServer]
      show u.out.length - s.server.received.length ≤ _
      omega
    · rw [length_toClient]
      show s.server.out.length - u.received.length ≤ _
      rw [hk.received]
      exact h2
  | toServer n t h0 hn hstep =>
    cases Session.step_cases hstep with
    | clientSend b he =>
      have hlen : (s.toServer.take n).length ≤ n := List.length_take_le _ _
      refine ⟨?_, hi.toClient, length_taken hi.server hroom.2 hlen, hi.client⟩
      rw [length_toServer]
      show s.client.out.length - (s.server.received ++ s.toServer.take n).length ≤ _
      rw [List.length_append]
      omega
  | toClient n u h0 hn hstep =>
    have hlen : (s.toClient.take n).length ≤ n := List.length_take_le _ _
    simp only [ClientSession.step] at hstep
    split at hstep
    · cases hstep
    · cases hstep
      refine ⟨hi.toServer, ?_, hi.server, length_taken hi.client hroom.2 hlen⟩
      rw [length_toClient]
      show s.server.out.length - (s.client.received ++ s.toClient.take n).length ≤ _
      rw [List.length_append]
      omega
  | closeServer r hpc hall heof => exact ⟨hi.toServer, hi.toClient, hi.server, hi.client⟩
  | closeClient r hpc hall heof => exact ⟨hi.toServer, hi.toClient, hi.server, hi.client⟩

/-! ## Going on -/

theorem course_length {entry : AuthorizedKey X} {resp req : Frame} {act : Session.Activity} {reads frames : List Frame}
    {cs : List Child} (h : Session.Course E entry resp req act reads cs frames) (hr : reads.length ≤ 1) :
    frames.length ≤ reads.length + 1 := by
  cases h with
  | opening => simp
  | challenged => simp
  | greeted => simp [Session.greeting]
  | _ => simp at hr

variable {sk : ByteArr 32} {keys : List (AuthorizedKey X)} {entry : AuthorizedKey X} {P : Program}

section GoesOn

variable (h : Ready X E C sk keys entry) (hi : Coupled E C P s)
include h hi

/-- **A client that is writing has read all that the session has written**, so the session is not writing. -/
theorem Coupled.caught_up (hrest : s.client.pc.rest ≠ []) : s.server.pc.rest = [] := by
  obtain ⟨act, -, hc, hsays⟩ := hi.course h
  have hcl := hi.hears_client
  have hhears := Session.hears_of_inv hi.server.inv
  -- the session has not read the last frame the client has begun
  have hfew : ∀ begun : List Frame, Says DEFAULT_MAX_PAYLOAD_LEN s.client.out s.client.pc.rest begun →
      (Session.readsOf s.server.log).length < begun.length := by
    intro begun hb
    have hpre := hhears.reads_isPrefix hb hi.toServer
    refine Nat.lt_of_le_of_ne hpre.length_le fun hlen => ?_
    exact hrest (hhears.caught_up hb hi.toServer (hpre.eq_of_length hlen))
  have hall : ∀ begun : List Frame, Says DEFAULT_MAX_PAYLOAD_LEN s.client.out s.client.pc.rest begun →
      begun.length ≤ 2 → begun.length = (ClientSession.readsOf s.client.log).length → s.server.pc.rest = [] := by
    intro begun hb htwo hlen
    have hlt := hfew begun hb
    have hle := course_length hc (by omega)
    have hpre := hi.client_reads h
    exact hcl.caught_up hsays hi.toClient (hpre.eq_of_length (by have := hpre.length_le; omega))
  have hresp : (response X E sk).Fits DEFAULT_MAX_PAYLOAD_LEN := ClientSession.authResponse_fits ..
  cases hpc : s.client.pc with
  | write f rest k =>
    cases k with
    | awaitResult =>
      obtain ⟨ch, hr, hreads, ho, -⟩ := ClientSession.Talk.of_responding (hpc ▸ hi.client.talk)
      rw [hi.first_read hreads] at hr
      rw [h.responds hr] at ho
      refine hall [response X E sk] ⟨?_, ?_⟩ (by simp) (by rw [hreads]; rfl)
      · rw [hpc]
        simpa [ClientSession.Pc.rest, encodeAll] using ho
      · intro g hg
        rw [List.mem_singleton.1 hg]
        exact hresp
    | replies =>
      obtain ⟨ch, resp, res, hr, -, -, -, hreads, ho, -⟩ := ClientSession.Talk.of_requesting (hpc ▸ hi.client.talk)
      rw [hi.first_read hreads] at hr
      rw [h.responds hr] at ho
      refine hall [response X E sk, shellRequest C] ⟨?_, ?_⟩ (by simp) (by rw [hreads]; rfl)
      · rw [hpc]
        simpa [ClientSession.Pc.rest, encodeAll, shellRequest] using ho
      · intro g hg
        rcases List.mem_pair.1 hg with rfl | rfl
        · exact hresp
        · exact h.request
  | _ => exact absurd (by rw [hpc]; rfl) hrest

omit h in
/-- An end that waits for a frame it has not got asks for more. -/
theorem Coupled.session_wants {begun : List Frame}
    (hb : Says DEFAULT_MAX_PAYLOAD_LEN s.client.out s.client.pc.rest begun)
    (hno : ∀ f r, readFrame DEFAULT_MAX_PAYLOAD_LEN s.server.inbuf ≠ .ok (f, r)) :
    0 < wanted DEFAULT_MAX_PAYLOAD_LEN s.server.inbuf := by
  rw [wanted_pos_iff]
  cases hr : readFrame DEFAULT_MAX_PAYLOAD_LEN s.server.inbuf with
  | ok fr => exact absurd hr (hno fr.1 fr.2)
  | error e => rw [(Session.hears_of_inv hi.server.inv).read_error hb hi.toServer hr]

theorem Coupled.client_wants (hno : ∀ f r, readFrame DEFAULT_MAX_PAYLOAD_LEN s.client.inbuf ≠ .ok (f, r)) :
    0 < wanted DEFAULT_MAX_PAYLOAD_LEN s.client.inbuf := by
  obtain ⟨act, -, -, hsays⟩ := hi.course h
  rw [wanted_pos_iff]
  cases hr : readFrame DEFAULT_MAX_PAYLOAD_LEN s.client.inbuf with
  | ok fr => exact absurd hr (hno fr.1 fr.2)
  | error e => rw [hi.hears_client.read_error hsays hi.toClient hr]

/-- The session moves, or a byte that it waits for arrives. -/
theorem Coupled.session_moves (hb : Bounded cap s) (hd : ∀ r, s.client.pc ≠ .done r)
    (hfree : s.server.pc.rest = [] ∨ s.toClient.length < cap.toClient)
    (hstuck : s.server.pc = .awaitAuth ∨ s.server.pc = .serve →
      (∀ f r, readFrame DEFAULT_MAX_PAYLOAD_LEN s.server.inbuf ≠ .ok (f, r)) → s.server.received ≠ s.client.out) :
    ∃ m s', Joint.Smooth P s m ∧ stepWithin cap E C s m = some s' := by
  have hrun : ∀ r, s.server.pc ≠ .done r := by
    intro r hr
    obtain ⟨-, code, hexit⟩ := hi.serverOk r hr
    exact hd _ hexit
  by_cases hread : s.server.pc = .awaitAuth ∨ s.server.pc = .serve →
      ∃ f r, readFrame DEFAULT_MAX_PAYLOAD_LEN s.server.inbuf = .ok (f, r)
  · by_cases hrest : s.server.pc.rest = []
    · obtain ⟨a, t, ha, hsm, ht⟩ := Session.own_enabled (E := E) hi.server.obey hi.server.receiving hrun hread
      have hroom : s.toClient.length + a.puts ≤ cap.toClient := by
        rw [Session.puts_eq_zero hrest ht]
        exact hb.toClient
      exact ⟨.server a, _, hsm, Lts.guarded_eq_some.2 ⟨hroom, step_server ha ht⟩⟩
    · -- one byte is put
      have hroom := hfree.resolve_left hrest
      cases hpc : s.server.pc with
      | write f rest k =>
        rw [hpc] at hrest
        have hput : Session.step E s.server (.put 1) =
            some { s.server with out := s.server.out ++ rest.take 1, pc := .write f (rest.drop 1) k } := by
          simp only [Session.step, hpc]
          exact if_pos ⟨Nat.one_pos, List.length_pos_iff.2 hrest⟩
        exact ⟨.server (.put 1), _, trivial, Lts.guarded_eq_some.2 ⟨hroom, step_server trivial hput⟩⟩
      | _ => exact absurd (by rw [hpc]; rfl) hrest
  · push Not at hread
    obtain ⟨hpc, hno⟩ := hread
    obtain ⟨begun, -, hsays⟩ := hi.client_says h
    have hseof : s.server.eof = false := by
      cases he : s.server.eof with
      | false => rfl
      | true =>
        obtain ⟨-, r, hr⟩ := hi.serverEof he
        exact absurd hr (hd r)
    obtain ⟨s', hs'⟩ := step_toServer (E := E) (C := C) hseof (hstuck hpc hno) hi.toServer
    exact ⟨.toServer 1, s', trivial, Lts.guarded_eq_some.2 ⟨⟨hpc, hi.session_wants hsays hno⟩, hs'⟩⟩

omit h hi in
/-- The client moves. -/
theorem client_moves (hb : Bounded cap s) (hd : ∀ r, s.client.pc ≠ .done r)
    (hfree : s.client.pc.rest = [] ∨ s.toServer.length < cap.toServer)
    (hread : s.client.pc.Awaits → ∃ f r, readFrame DEFAULT_MAX_PAYLOAD_LEN s.client.inbuf = .ok (f, r)) :
    ∃ m s', Joint.Smooth P s m ∧ stepWithin cap E C s m = some s' := by
  by_cases hrest : s.client.pc.rest = []
  · obtain ⟨a, ha, u, hu⟩ := ClientSession.quiet_enabled (X := X) (E := C) hd fun hw => Or.inl (hread hw)
    obtain ⟨hsm, hstep⟩ := step_client (E := E) (P := P) ha hu
    have hroom : s.toServer.length + a.puts ≤ cap.toServer := by
      rw [ClientSession.puts_eq_zero hrest hu]
      exact hb.toServer
    exact ⟨.client a, _, hsm, Lts.guarded_eq_some.2 ⟨hroom, hstep⟩⟩
  · have hroom := hfree.resolve_left hrest
    cases hpc : s.client.pc with
    | write f rest k =>
      rw [hpc] at hrest
      have hput : ClientSession.step X C s.client (.put 1) =
          some { s.client with out := s.client.out ++ rest.take 1, pc := .write f (rest.drop 1) k } := by
        simp only [ClientSession.step, hpc]
        exact if_pos ⟨Nat.one_pos, List.length_pos_iff.2 hrest⟩
      obtain ⟨hsm, hstep⟩ := step_client (E := E) (P := P) (a := .put 1) trivial hput
      exact ⟨.client (.put 1), _, hsm, Lts.guarded_eq_some.2 ⟨hroom, hstep⟩⟩
    | _ => exact absurd (by rw [hpc]; rfl) hrest

/-- **With a byte of room in either direction the two never block each other.** -/
theorem Coupled.goes_on_within (hb : Bounded cap s) (hserver : 0 < cap.toServer) (hclient : 0 < cap.toClient)
    (hd : ∀ r, s.client.pc ≠ .done r) : ∃ m s', Joint.Smooth P s m ∧ stepWithin cap E C s m = some s' := by
  by_cases hread : s.client.pc.Awaits → ∃ f r, readFrame DEFAULT_MAX_PAYLOAD_LEN s.client.inbuf = .ok (f, r)
  · by_cases hfree : s.client.pc.rest = [] ∨ s.toServer.length < cap.toServer
    · exact client_moves hb hd hfree hread
    · -- the client has filled the buffer, so the session has something to take from it
      push Not at hfree
      obtain ⟨hrest, hfull⟩ := hfree
      refine hi.session_moves h hb hd (Or.inl (hi.caught_up h hrest)) fun _ _ heq => ?_
      rw [length_toServer, heq] at hfull
      omega
  · push Not at hread
    obtain ⟨hw, hno⟩ := hread
    by_cases hc : s.client.received = s.server.out
    · have hempty : s.toClient.length < cap.toClient := by
        rw [length_toClient, hc]
        omega
      refine hi.session_moves h hb hd (Or.inr hempty) fun hpc hno' hs => ?_
      obtain ⟨f, r, hr⟩ := hi.session_reads h hw hno hc hs hpc
      exact hno' f r hr
    · have hceof : s.client.eof = false := by
        cases he : s.client.eof with
        | false => rfl
        | true =>
          obtain ⟨r, hr⟩ := hi.clientEof he
          obtain ⟨-, code, hexit⟩ := hi.serverOk r hr
          exact absurd hexit (hd _)
      obtain ⟨s', hs'⟩ := step_toClient (E := E) (C := C) hceof hc hi.toClient
      exact ⟨.toClient 1, s', trivial, Lts.guarded_eq_some.2 ⟨⟨hw.reading, hi.client_wants h hno⟩, hs'⟩⟩

end GoesOn

/-! ## Every run -/

theorem bounded_run {ms : List Move} (hrun : runWithin cap E C Joint.init ms = some s) : Bounded cap s :=
  Lts.run_inv (Bounded cap) (fun _ _ _ hi hs => bounded_step hi hs) bounded_init hrun

/-- **End to end, over buffers of any size.** However few bytes the transport holds: in every run the two ends
never block each other, neither holds more than a frame, the run is no longer than over buffers without a bound,
and by its end the client has written what the command wrote and exits with its code. -/
theorem fidelity_within (h : Ready X E C sk keys entry) (hserver : 0 < cap.toServer) (hclient : 0 < cap.toClient)
    {ms : List Move} (hsm : Lts.Meets (stepWithin cap E C) (Joint.Smooth P) (Joint.init : Joint X) ms)
    (hrun : runWithin cap E C Joint.init ms = some s) :
    ms.length ≤ (Joint.init : Joint X).remaining P ∧ Bounded cap s ∧
    ((∀ r, s.client.pc ≠ .done r) → ∃ m s', Joint.Smooth P s m ∧ stepWithin cap E C s m = some s') ∧
    Delivers X E C P s := by
  obtain ⟨hrun', -⟩ := Lts.guarded_run hrun
  have hsm' := Lts.guarded_meets hrun hsm
  have hi := coupled_run h hsm' hrun'
  have hb := bounded_run hrun
  refine ⟨?_, hb, hi.goes_on_within h hb hserver hclient, hi.delivers h⟩
  exact Nat.le_of_add_right_le (Lts.run_length_le (Joint.remaining P) (fun _ _ _ hG hs => remaining_step hG hs) hsm' hrun')

/-- The client gets to exit. -/
theorem exit_within (cap : Caps) (h : Ready X E C sk keys entry) (hserver : 0 < cap.toServer)
    (hclient : 0 < cap.toClient) (P : Program) : ∃ ms s code, runWithin cap E C (Joint.init : Joint X) ms = some s ∧
      Lts.Meets (stepWithin cap E C) (Joint.Smooth P) (Joint.init : Joint X) ms ∧ s.client.pc = .done (.exit code) := by
  obtain ⟨ms, s, hrun, hsm, r, hr⟩ : ∃ ms, ∃ s : Joint X, Lts.run (stepWithin cap E C) Joint.init ms = some s ∧
      Lts.Meets (stepWithin cap E C) (Joint.Smooth P) Joint.init ms ∧ ∃ r, s.client.pc = .done r := by
    refine Lts.run_to_end (fun s : Joint X => Coupled E C P s ∧ Bounded cap s) _ (Joint.remaining P) ?_ ?_ ?_
      ⟨coupled_init, bounded_init⟩
    · intro s m s' hG hi hs
      exact ⟨coupled_step h hi.1 hG (Lts.guarded_eq_some.1 hs).2, bounded_step hi.2 hs⟩
    · intro s m s' hG hs
      exact remaining_step hG (Lts.guarded_eq_some.1 hs).2
    · intro s hi hd
      push Not at hd
      exact hi.1.goes_on_within h hi.2 hserver hclient hd
  have hi := coupled_run h (Lts.guarded_meets hrun hsm) (Lts.guarded_run hrun).1
  obtain ⟨code, hexit⟩ := hi.exited hr
  exact ⟨ms, s, code, hrun, hsm, hexit⟩

/-- With one byte of room in either direction the sample client writes the line and exits with 3. -/
theorem fidelity_within_one : ∃ s : Joint Ext.sample, Bounded ⟨1, 1⟩ s ∧ s.client.pc = .done (.exit 3) ∧
    s.client.stdout = sampleProgram.stdout := by
  obtain ⟨ms, s, code, hrun, hsm, hexit⟩ :=
    exit_within ⟨1, 1⟩ ready_sample Nat.one_pos Nat.one_pos sampleProgram
  obtain ⟨-, hb, -, hdelivers⟩ := fidelity_within ready_sample Nat.one_pos Nat.one_pos hsm hrun
  obtain ⟨rfl, hout, -⟩ := hdelivers.permitted (by decide) code hexit
  exact ⟨s, hb, hexit, hout⟩

end System

end Sao
