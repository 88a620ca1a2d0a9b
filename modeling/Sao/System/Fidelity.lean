import Mathlib.Tactic.Ring
import Sao.System.Joint

/-!
# The client prints what the command wrote

* `remaining_step` — every smooth step uses something up, so no run goes on for ever.
* `Coupled.goes_on` — the two never wait for each other.
* `exit_of_course` — what the client has read when it exits.
* `run_fidelity` — every run of the two, from the key of the client to its exit code.
-/

namespace Sao.System

open MsgType AgentKey

variable {X : Ext} {E : Session.Env} {C : ClientSession.Env} {sk : ByteArr 32} {keys : List (AuthorizedKey X)}
  {entry : AuthorizedKey X} {P : Program} {s s' : Joint X}

/-! ## How much is left to do -/

def ifOpen (eof : Bool) : Nat := if eof then 0 else 1

/-- A byte that is to arrive at the session costs more than all it can lead to there, and a byte that the
client has yet to write more than that. -/
def Joint.remaining (P : Program) (s : Joint X) : Nat :=
  (P.requestCost + 2) * s.client.pc.remaining + s.client.inbuf.length +
    (P.requestCost + 1) * (s.client.out.length - s.server.received.length) + s.server.remaining P +
    2 * (s.server.out.length - s.client.received.length) + ifOpen s.server.eof + ifOpen s.client.eof

theorem remaining_step {m : Move} (hsm : Joint.Smooth P s m) (hs : s.step E C m = some s') :
    s'.remaining P < s.remaining P := by
  cases Joint.step_cases hs with
  | server a t ha hstep =>
    have hk := Session.keeps_step ha hstep
    have hlt := Session.remaining_step ha hsm hstep
    have hout := hk.out.length_le
    show (P.requestCost + 2) * s.client.pc.remaining + s.client.inbuf.length +
      (P.requestCost + 1) * (s.client.out.length - t.received.length) + t.remaining P +
      2 * (t.out.length - s.client.received.length) + ifOpen t.eof + ifOpen s.client.eof < _
    rw [hk.received, hk.eof]
    unfold Joint.remaining
    omega
  | client a u ha hstep =>
    have hk := ClientSession.keeps_step ha hstep
    have hu := ClientSession.uses_step ha hstep
    have hout := hk.out.length_le
    show (P.requestCost + 2) * u.pc.remaining + u.inbuf.length +
      (P.requestCost + 1) * (u.out.length - s.server.received.length) + s.server.remaining P +
      2 * (s.server.out.length - u.received.length) + ifOpen s.server.eof + ifOpen u.eof < _
    rw [hk.received, hk.eof]
    unfold Joint.remaining
    obtain ⟨d, hd⟩ := Nat.exists_eq_add_of_le hu.pc
    have hfly : (P.requestCost + 1) * (u.out.length - s.server.received.length) ≤
        (P.requestCost + 1) * (s.client.out.length - s.server.received.length) + (P.requestCost + 1) * d := by
      rw [← Nat.mul_add]
      have := hu.out
      exact Nat.mul_le_mul_left _ (by omega)
    have hpay : (P.requestCost + 2) * (u.pc.remaining + d) =
        (P.requestCost + 2) * u.pc.remaining + (P.requestCost + 1) * d + d := by ring
    have hin := hu.inbuf
    have heither := hu.either
    rw [hd, hpay]
    omega
  | toServer n t h0 hn hstep =>
    cases Session.step_cases hstep with
    | clientSend b he =>
      have hlen : (s.toServer.take n).length = n := by rw [List.length_take, Nat.min_eq_left hn]
      have hfly : s.toServer.length = s.client.out.length - s.server.received.length := List.length_drop
      obtain ⟨k, hk⟩ := Nat.exists_eq_add_of_le hn
      show (P.requestCost + 2) * s.client.pc.remaining + s.client.inbuf.length +
        (P.requestCost + 1) * (s.client.out.length - (s.server.received ++ s.toServer.take n).length) +
        ((s.server.inbuf ++ s.toServer.take n).length * P.requestCost + s.server.pc.remaining P +
          ((Session.children s.server).map (Child.remaining P)).sum) +
        2 * (s.server.out.length - s.client.received.length) + ifOpen s.server.eof + ifOpen s.client.eof < _
      unfold Joint.remaining Session.State.remaining
      have hrest : s.client.out.length - (s.server.received ++ s.toServer.take n).length = k := by
        rw [List.length_append, hlen]
        omega
      have hnow : s.client.out.length - s.server.received.length = n + k := by omega
      have hcost : (P.requestCost + 1) * (n + k) = n * P.requestCost + n + (P.requestCost + 1) * k := by ring
      have hbuf : (s.server.inbuf ++ s.toServer.take n).length * P.requestCost =
          s.server.inbuf.length * P.requestCost + n * P.requestCost := by
        rw [List.length_append, hlen, Nat.add_mul]
      rw [hrest, hnow, hcost, hbuf]
      omega
  | toClient n u h0 hn hstep =>
    have hlen : (s.toClient.take n).length = n := by rw [List.length_take, Nat.min_eq_left hn]
    have hfly : s.toClient.length = s.server.out.length - s.client.received.length := List.length_drop
    simp only [ClientSession.step] at hstep
    split at hstep
    · cases hstep
    · cases hstep
      show (P.requestCost + 2) * s.client.pc.remaining + (s.client.inbuf ++ s.toClient.take n).length +
        (P.requestCost + 1) * (s.client.out.length - s.server.received.length) + s.server.remaining P +
        2 * (s.server.out.length - (s.client.received ++ s.toClient.take n).length) + ifOpen s.server.eof +
        ifOpen s.client.eof < _
      unfold Joint.remaining
      rw [List.length_append, List.length_append, hlen]
      omega
  | closeServer r hpc hall heof =>
    show (P.requestCost + 2) * s.client.pc.remaining + s.client.inbuf.length +
      (P.requestCost + 1) * (s.client.out.length - s.server.received.length) + s.server.remaining P +
      2 * (s.server.out.length - s.client.received.length) + 0 + ifOpen s.client.eof < _
    unfold Joint.remaining
    rw [heof]
    simp only [ifOpen, Bool.false_eq_true, if_false]
    omega
  | closeClient r hpc hall heof =>
    show (P.requestCost + 2) * s.client.pc.remaining + s.client.inbuf.length +
      (P.requestCost + 1) * (s.client.out.length - s.server.received.length) + s.server.remaining P +
      2 * (s.server.out.length - s.client.received.length) + ifOpen s.server.eof + 0 < _
    unfold Joint.remaining
    rw [heof]
    simp only [ifOpen, Bool.false_eq_true, if_false]
    omega

/-! ## Going on -/

theorem step_server {a : Session.Action} {t : Session.State X} (ha : a.Own) (hs : Session.step E s.server a = some t) :
    s.step E C (.server a) = some (s.setServer t) := by
  simp only [Joint.step, if_pos ha, hs, Option.map_some]

theorem step_client {a : ClientSession.Action} {u : ClientSession.State} (ha : a.Quiet)
    (hs : ClientSession.step X C s.client a = some u) :
    Joint.Smooth P s (.client a) ∧ s.step E C (.client a) = some (s.setClient u) := by
  refine ⟨?_, by simp only [Joint.step, if_pos ha.own, hs, Option.map_some]⟩
  cases a <;> trivial

/-- A byte arrives at the client. -/
theorem step_toClient (heof : s.client.eof = false) (h : s.client.received ≠ s.server.out)
    (hpre : s.client.received <+: s.server.out) : ∃ s', s.step E C (.toClient 1) = some s' := by
  have hne : s.toClient ≠ [] := fun hnil => h (all_arrived hpre hnil)
  simp only [Joint.step, ClientSession.step, heof, Bool.false_eq_true, if_false, Option.map_some]
  exact ⟨_, if_pos ⟨Nat.one_pos, List.length_pos_iff.2 hne⟩⟩

theorem step_toServer (heof : s.server.eof = false) (h : s.server.received ≠ s.client.out)
    (hpre : s.server.received <+: s.client.out) : ∃ s', s.step E C (.toServer 1) = some s' := by
  have hne : s.toServer ≠ [] := fun hnil => h (all_arrived hpre hnil)
  simp only [Joint.step, Session.step, heof, Bool.false_eq_true, if_false, Option.map_some]
  exact ⟨_, if_pos ⟨Nat.one_pos, List.length_pos_iff.2 hne⟩⟩

section Wait

variable (h : Ready X E C sk keys entry) (hi : Coupled E C P s)
include h hi

/-- A session that waits for a client that waits for it has something to read. -/
theorem Coupled.session_reads (hw : s.client.pc.Awaits)
    (hno : ∀ f r, readFrame DEFAULT_MAX_PAYLOAD_LEN s.client.inbuf ≠ .ok (f, r))
    (hc : s.client.received = s.server.out) (hs : s.server.received = s.client.out)
    (hpc : s.server.pc = .awaitAuth ∨ s.server.pc = .serve) :
    ∃ f r, readFrame DEFAULT_MAX_PAYLOAD_LEN s.server.inbuf = .ok (f, r) := by
  obtain ⟨act, hat, hcourse, hsays⟩ := hi.course h
  have hrest : s.server.pc.rest = [] := by rcases hpc with hpc | hpc <;> rw [hpc] <;> rfl
  rw [hrest] at hsays
  -- the client has read all there is
  have hreads : ClientSession.readsOf s.client.log = Session.history s.server := by
    by_contra hne
    obtain ⟨f, r, hr⟩ := hi.hears_client.next_frame hsays hc hne
    exact hno f r hr
  have hnext : ∀ {begun : List Frame}, Says DEFAULT_MAX_PAYLOAD_LEN s.client.out [] begun →
      Session.readsOf s.server.log ≠ begun →
      ∃ f r, readFrame DEFAULT_MAX_PAYLOAD_LEN s.server.inbuf = .ok (f, r) :=
    fun hb hne => (Session.hears_of_inv hi.server.inv).next_frame hb hs hne
  rcases hpc with hpc | hpc
  · have hact := hat.act_eq (show s.server.pc.activity = some .challenged by rw [hpc]; rfl)
    subst hact
    obtain ⟨hnil, -, hhist⟩ := hcourse.of_challenged
    rw [hhist] at hreads
    rcases hw with ⟨sk', hw⟩ | hw | hw
    · obtain ⟨-, hnone, -⟩ := ClientSession.Talk.of_awaitChallenge (hw ▸ hi.client.talk)
      rw [hnone] at hreads
      cases hreads
    · exact hnext (hi.says_response h hw) (by rw [hnil]; nofun)
    · exact hnext (hi.says_all h (Or.inl hw)) (by rw [hnil]; nofun)
  · have hact := hat.act_eq (show s.server.pc.activity = some .idle by rw [hpc]; rfl)
    subst hact
    have htwo : ∃ more, Session.history s.server = Session.greeting E entry ++ more := by
      rcases h.ended hcourse with ⟨-, hhist⟩ | ⟨outs, last, code, hhist, -⟩
      · exact ⟨[], by rw [hhist, List.append_nil]⟩
      · exact ⟨_, hhist⟩
    obtain ⟨more, hmore⟩ := htwo
    rcases hw with ⟨sk', hw⟩ | hw | hw
    · obtain ⟨-, hnone, -⟩ := ClientSession.Talk.of_awaitChallenge (hw ▸ hi.client.talk)
      rw [hnone, hmore] at hreads
      cases hreads
    · obtain ⟨ch, resp, -, hone, -⟩ := ClientSession.Talk.of_awaitResult (hw ▸ hi.client.talk)
      rw [hone, hmore] at hreads
      cases hreads
    · refine hnext (hi.says_all h (Or.inl hw)) fun hall => ?_
      obtain ⟨ch, resp, res, outs, -, -, -, hstreams, hr, -⟩ := ClientSession.Talk.of_replies (hw ▸ hi.client.talk)
      rcases h.ended hcourse with ⟨hone, -⟩ | ⟨outs', last, code, hhist, hlast⟩
      · rw [hone] at hall
        cases hall
      · -- the last frame would have ended the client
        rw [hr, hhist] at hreads
        injection hreads with _ hreads
        injection hreads with _ hreads
        have hs' := (hstreams last (by rw [hreads]; simp)).exitOf
        rw [hlast] at hs'
        cases hs'

/-- **The two never wait for each other.** -/
theorem Coupled.goes_on (hd : ∀ r, s.client.pc ≠ .done r) : ∃ m s', Joint.Smooth P s m ∧ s.step E C m = some s' := by
  have hrun : ∀ r, s.server.pc ≠ .done r := by
    intro r hr
    obtain ⟨-, code, hexit⟩ := hi.serverOk r hr
    exact hd _ hexit
  have hceof : s.client.eof = false := by
    cases he : s.client.eof with
    | false => rfl
    | true =>
      obtain ⟨r, hr⟩ := hi.clientEof he
      exact absurd hr (hrun r)
  have hseof : s.server.eof = false := by
    cases he : s.server.eof with
    | false => rfl
    | true =>
      obtain ⟨-, r, hr⟩ := hi.serverEof he
      exact absurd hr (hd r)
  by_cases hclient : s.client.pc.Awaits → ∃ f r, readFrame DEFAULT_MAX_PAYLOAD_LEN s.client.inbuf = .ok (f, r)
  · obtain ⟨a, ha, u, hu⟩ := ClientSession.quiet_enabled (X := X) (E := C) hd fun hw => Or.inl (hclient hw)
    exact ⟨.client a, _, step_client ha hu⟩
  push Not at hclient
  obtain ⟨hw, hno⟩ := hclient
  by_cases hc : s.client.received = s.server.out
  · by_cases hs : s.server.received = s.client.out
    · obtain ⟨a, t, ha, hsm, ht⟩ := Session.own_enabled (E := E) hi.server.obey hi.server.receiving hrun
        (hi.session_reads h hw hno hc hs)
      exact ⟨.server a, _, hsm, step_server ha ht⟩
    · obtain ⟨s', hs'⟩ := step_toServer (E := E) (C := C) hseof hs hi.toServer
      exact ⟨.toServer 1, s', trivial, hs'⟩
  · obtain ⟨s', hs'⟩ := step_toClient (E := E) (C := C) hceof hc hi.toClient
    exact ⟨.toClient 1, s', trivial, hs'⟩

end Wait

/-! ## What the client has written -/

/-- What a client that exits has read behind the greeting. -/
theorem exit_of_course {resp req ch res last : Frame} {outs reads frames : List Frame} {act : Session.Activity}
    {cs : List Child} {code : Int32} (hX : X.Lawful) (hc : Session.Course E entry resp req act reads cs frames)
    (hpre : ch :: res :: (outs ++ [last]) <+: frames) (hlast : ClientSession.exitOf X last = some code) :
    (Session.reaction X E req = .deny last ∧ outs = []) ∨
    ∃ c taken code', Session.reaction X E req = .run c.argv ∧ Session.Reported False c taken code' ∧ cs = [c] ∧
      outs = Session.streamFrames taken ∧ last = Session.exitFrame code' := by
  have htail : ∀ {rest : List Frame}, frames = Session.greeting E entry ++ rest → outs ++ [last] <+: rest := by
    rintro rest rfl
    exact (List.cons_prefix_cons.1 (List.cons_prefix_cons.1 hpre).2).2
  have hnot : ∀ taken, ¬ outs ++ [last] <+: Session.streamFrames taken := by
    intro taken hpre'
    obtain ⟨chunk, -, hchunk⟩ := List.mem_map.1 (hpre'.subset (List.mem_append_right outs (List.mem_singleton_self last)))
    have hnone := (ClientSession.streams_chunkFrame hX chunk).exitOf
    rw [hchunk, hlast] at hnone
    cases hnone
  have hempty : ¬ outs ++ [last] <+: [] := fun hpre' => by simpa using List.prefix_nil.1 hpre'
  cases hc with
  | opening => exact absurd (List.prefix_nil.1 hpre) nofun
  | challenged => exact absurd hpre.length_le (by simp)
  | greeted => exact absurd (htail (List.append_nil _).symm) hempty
  | asked hr => exact absurd (htail (List.append_nil _).symm) hempty
  | denied hr =>
    left
    rcases List.prefix_concat_iff.1 (show outs ++ [last] <+: [] ++ [_] from htail rfl) with heq | hpre'
    · obtain ⟨hnil, hg⟩ := List.append_inj' heq rfl
      rw [List.cons.injEq] at hg
      exact ⟨hg.1 ▸ hr, hnil⟩
    · exact absurd hpre' hempty
  | running hr hrun => exact absurd (htail rfl) (hnot _)
  | waiting hr hrun hd => exact absurd (htail rfl) (hnot _)
  | @ran c taken code' hr hrep =>
    right
    rcases List.prefix_concat_iff.1 (htail rfl) with heq | hpre'
    · obtain ⟨houts, hexit⟩ := List.append_inj' heq rfl
      rw [List.cons.injEq] at hexit
      exact ⟨c, taken, code', hr, hrep, rfl, houts, hexit.1⟩
    · exact absurd hpre' (hnot _)

section Exit

variable (h : Ready X E C sk keys entry) (hi : Coupled E C P s)
include h hi

/-- **A client exits with 126, or with the code of the command**, all of whose output it has written. -/
theorem Coupled.exit {code : Int32} (hpc : s.client.pc = .done (.exit code)) :
    (∃ g, Session.reaction X E (shellRequest C) = .deny g ∧ code = 126) ∨
    ∃ argv, Session.reaction X E (shellRequest C) = .run argv ∧ code = P.code.getD (-1) ∧
      s.client.stdout = P.stdout ∧ s.client.stderr = P.stderr := by
  obtain ⟨ch, resp, res, outs, last, -, -, -, -, hlast, hreads, -, hstdout, hstderr⟩ :=
    ClientSession.Talk.of_exited (hpc ▸ hi.client.talk)
  obtain ⟨act, -, hcourse, -⟩ := hi.course h
  have hpre := hi.client_reads h
  rw [hreads] at hpre
  rcases exit_of_course h.lawful hcourse hpre hlast with ⟨hr, rfl⟩ | ⟨c, taken, code', hr, hrep, hcs, rfl, rfl⟩
  · left
    obtain ⟨msg, -, rfl⟩ := h.denied hr
    rw [ClientSession.exitOf_denied, Option.some.injEq] at hlast
    exact ⟨_, hr, hlast.symm⟩
  · right
    have hobey := hi.server.obey c (by rw [hcs]; exact List.mem_singleton_self c)
    rw [ClientSession.exitOf_exitFrame h.lawful, Option.some.injEq] at hlast
    rcases hrep.exit with ⟨hno, -⟩ | ⟨hgone, rfl, st, hst, hcode⟩
    · exact hno.elim
    -- both reader tasks have ended, so everything was sent
    have hall : ∀ fd, ClientSession.carried X (ClientSession.streamType fd) (Session.streamFrames c.sent) = P.output fd := by
      intro fd
      rw [ClientSession.carried_streamFrames h.lawful, hobey.whole fd (Child.sendersGone_iff.1 hgone fd)]
    refine ⟨c.argv, hr, ?_, hstdout.trans (hall .out), ?_⟩
    · rw [← hlast, hcode, hobey.exited st hst]
    · rw [hstderr, ClientSession.printed_exitFrame, List.append_nil]
      exact hall .err

/-- Nothing comes of a request that is denied. -/
theorem Coupled.nothing {g : Frame} (hr : Session.reaction X E (shellRequest C) = .deny g) :
    Session.spawnsOf s.server.log = [] ∧ s.client.stdout = [] := by
  obtain ⟨msg, hpolicy, rfl⟩ := h.denied hr
  constructor
  · rcases hi.server.inv.stage.spawned with hnil | ⟨resp, rest, entry', hserved⟩
    · exact hnil
    · have hreads := hi.server_reads h
      rw [hserved.reads] at hreads
      have hreq : ∀ f ∈ rest, f = shellRequest C := fun f hf =>
        List.mem_singleton.1 ((List.cons_prefix_cons.1 hreads).2.subset hf)
      have hnone : rest.filterMap (Session.argvOf X E) = [] := by
        refine List.filterMap_eq_nil_iff.2 fun f hf => ?_
        rw [hreq f hf]
        refine Option.map_eq_none_iff.2 (Option.eq_none_iff_forall_ne_some.2 fun shell hshell => ?_)
        obtain ⟨-, hdec, hok⟩ := Session.permitted_some hshell
        rw [show X.execShell (shellRequest C).payload = .ok C.shellLine from h.lawful.execShell _] at hdec
        cases hdec
        rw [hpolicy] at hok
        cases hok
      have hsub := hserved.spawns
      rw [List.append_nil, hnone] at hsub
      exact List.sublist_nil.1 hsub
  · obtain ⟨act, -, hcourse, -⟩ := hi.course h
    -- behind the greeting there is at most the denial
    have hhist : Session.history s.server <+: Session.greeting E entry ++
        [jsonFrame POLICY_DENIED (policyDeniedJson msg)] := hcourse.of_denied hr
    refine hi.client.talk.stdout_nil hi.clientOk fun f hf hstream => ?_
    obtain ⟨more, hmore⟩ := (hi.client_reads h).trans hhist
    have hmem : f ∈ (ClientSession.readsOf s.client.log ++ more).drop 2 := by
      rw [List.drop_append]
      exact List.mem_append_left _ hf
    rw [hmore] at hmem
    have hnone := hstream.exitOf
    rw [List.mem_singleton.1 hmem, ClientSession.exitOf_denied] at hnone
    cases hnone

end Exit

/-! ## Every run -/

/-- What holds in every state of a smooth run. -/
structure Delivers (X : Ext) (E : Session.Env) (C : ClientSession.Env) (P : Program) (s : Joint X) : Prop where
  clientOk : ∀ o, s.client.pc = .done o → ¬ o.Failed
  serverOk : ∀ r, s.server.pc = .done r → r = .ok ()
  goesOn : (∀ r, s.client.pc ≠ .done r) → ∃ m s', Joint.Smooth P s m ∧ s.step E C m = some s'
  permitted : (∀ pat ∈ E.config.policy.denySubstrings, ¬ pat <:+: C.shellLine) →
    ∀ code, s.client.pc = .done (.exit code) →
      code = P.code.getD (-1) ∧ s.client.stdout = P.stdout ∧ s.client.stderr = P.stderr
  denied : (∃ pat ∈ E.config.policy.denySubstrings, pat <:+: C.shellLine) →
    Session.spawnsOf s.server.log = [] ∧ s.client.stdout = [] ∧ ∀ code, s.client.pc = .done (.exit code) → code = 126

theorem coupled_run (h : Ready X E C sk keys entry) {ms : List Move}
    (hsm : Lts.Meets (Joint.step E C) (Joint.Smooth P) (Joint.init : Joint X) ms)
    (hrun : Joint.run E C Joint.init ms = some s) :
    Coupled E C P s :=
  Lts.run_inv_meets (Coupled E C P) (fun _ _ _ hG hi hs => coupled_step h hi hG hs) hsm coupled_init hrun

theorem Coupled.delivers (h : Ready X E C sk keys entry) (hi : Coupled E C P s) : Delivers X E C P s where
  clientOk := hi.clientOk
  serverOk r hr := (hi.serverOk r hr).1
  goesOn := hi.goes_on h
  permitted hpol code hpc := by
    have hreaction := h.reaction
    rw [checkShell_ok_iff.2 hpol] at hreaction
    rcases hi.exit h hpc with ⟨g, hr, -⟩ | ⟨argv, -, hexit⟩
    · rw [hreaction] at hr
      cases hr
    · exact hexit
  denied := by
    rintro ⟨pat, hpat, hin⟩
    have hdeny : ∃ g, Session.reaction X E (shellRequest C) = .deny g := by
      have hreaction := h.reaction
      cases hc : checkShell X E.config.policy C.shellLine with
      | ok u => exact absurd hin (checkShell_ok_iff.1 hc pat hpat)
      | error e =>
        obtain ⟨pat', -, -, rfl⟩ := checkShell_error hc
        rw [hc] at hreaction
        exact ⟨_, hreaction⟩
    obtain ⟨g, hg⟩ := hdeny
    obtain ⟨hspawns, hstdout⟩ := hi.nothing h hg
    refine ⟨hspawns, hstdout, fun code hpc => ?_⟩
    rcases hi.exit h hpc with ⟨-, -, hcode⟩ | ⟨argv, hr, -⟩
    · exact hcode
    · rw [hg] at hr
      cases hr

/-- **End to end.** Whatever a command writes, however its pipes split it and in whatever order the two ends and
the reader tasks take their steps: no frame is too long and neither end fails; the client goes on until it
exits, after a number of steps that is bounded beforehand; by then it has written what the command wrote, and
exits with its code. A request that is denied is not run. -/
theorem run_fidelity (h : Ready X E C sk keys entry) {ms : List Move}
    (hsm : Lts.Meets (Joint.step E C) (Joint.Smooth P) (Joint.init : Joint X) ms)
    (hrun : Joint.run E C Joint.init ms = some s) :
    ms.length ≤ (Joint.init : Joint X).remaining P ∧ Delivers X E C P s := by
  refine ⟨?_, (coupled_run h hsm hrun).delivers h⟩
  exact Nat.le_of_add_right_le (Lts.run_length_le (Joint.remaining P) (fun _ _ _ hG hs => remaining_step hG hs) hsm hrun)

/-- The client gets to exit. -/
theorem run_to_exit (h : Ready X E C sk keys entry) (P : Program) : ∃ ms s code,
    Joint.run E C (Joint.init : Joint X) ms = some s ∧
    Lts.Meets (Joint.step E C) (Joint.Smooth P) (Joint.init : Joint X) ms ∧ s.client.pc = .done (.exit code) := by
  obtain ⟨ms, s, hrun, hsm, r, hr⟩ : ∃ ms s, Lts.run (Joint.step E C) Joint.init ms = some s ∧
      Lts.Meets (Joint.step E C) (Joint.Smooth P) Joint.init ms ∧ ∃ r, s.client.pc = .done r :=
    Lts.run_to_end (Coupled E C P) _ (Joint.remaining P) (fun _ _ _ hG hi hs => coupled_step h hi hG hs)
      (fun _ _ _ hG hs => remaining_step hG hs)
      (fun s hi hd => by
        push Not at hd
        exact hi.goes_on h hd) coupled_init
  obtain ⟨code, hexit⟩ := (coupled_run h hsm hrun).exited hr
  exact ⟨ms, s, code, hrun, hsm, hexit⟩

/-! ## A sample -/

def sampleClient : ClientSession.Env := ⟨.ok Sample.secretKey, "id".toList⟩

/-- Writes `uid=0` and a newline, and exits with 3. -/
def sampleProgram : Program := ⟨[0x75, 0x69, 0x64, 0x3d, 0x30, 0x0a], [], some 3⟩

theorem ready_sample : Ready Ext.sample provisionedEnv sampleClient Sample.secretKey [Sample.entry] Sample.entry := by
  have hpk : Ext.sample.verifyingKeyFromBytes Sample.publicKey = .ok () := rfl
  have hfits : ∀ f ∈ [Session.challenge provisionedEnv, Session.authOk provisionedEnv Sample.entry,
      ClientSession.execShell sampleClient.shellLine], f.Fits DEFAULT_MAX_PAYLOAD_LEN := by decide +kernel
  have hpolicy : checkShell Ext.sample provisionedEnv.config.policy sampleClient.shellLine = .ok () := by decide
  exact
    { lawful := lawful_sample
      key := rfl
      loaded := load_publicBody hpk lawful_sample
      found := findKey_agentEntry hpk lawful_sample.lowercase
      listed := rfl
      argv := fun _ => by decide
      challenge := hfits _ (by simp)
      authOk := hfits _ (by simp)
      request := hfits _ (by simp)
      denial := fun msg hmsg => by
        rw [hpolicy] at hmsg
        cases hmsg }

/-- The client has written the line and exits with 3. -/
theorem run_fidelity_sample : ∃ s : Joint Ext.sample, s.client.pc = .done (.exit 3) ∧
    s.client.stdout = sampleProgram.stdout ∧ s.client.stderr = [] := by
  obtain ⟨ms, s, code, hrun, hsm, hexit⟩ := run_to_exit ready_sample sampleProgram
  obtain ⟨-, hdelivers⟩ := run_fidelity ready_sample hsm hrun
  obtain ⟨rfl, hout, herr⟩ := hdelivers.permitted (by decide) code hexit
  exact ⟨s, hexit, hout, herr⟩

end Sao.System
