import Sao.Protocol.Wire
import Sao.Server.Opening
import Sao.Server.Remaining

/-!
# A session that is asked once

* `Course` — how far the conversation with a client has got that sends an accepted response and one
  request which is denied or run.
* `course_of_told` — every smooth run that has read no more than these two frames is somewhere on it.
* `Course.fits` — its frames can all be read by a client.
* `done_step` — it is left only where nothing can be read.
-/

namespace Sao.Session

open MsgType State

variable {X : Ext} {E : Env} {s s' : State X} {entry : AuthorizedKey X} {resp req : Frame}

/-- The activity, the frames read, the commands spawned, and the frames written or begun. -/
inductive Course (E : Env) (entry : AuthorizedKey X) (resp req : Frame) :
    Activity → List Frame → List Child → List Frame → Prop where
  | opening : Course E entry resp req .opening [] [] []
  | challenged : Course E entry resp req .challenged [] [] [challenge E]
  | greeted : Course E entry resp req .idle [resp] [] (greeting E entry)
  | asked {r : Reaction} (hr : reaction X E req = r) :
      Course E entry resp req (.asked r) [resp, req] [] (greeting E entry)
  | denied {g : Frame} (hr : reaction X E req = .deny g) :
      Course E entry resp req .idle [resp, req] [] (greeting E entry ++ [g])
  | running {c : Child} {taken : List StreamChunk} (hr : reaction X E req = .run c.argv) (hc : Running c taken) :
      Course E entry resp req .running [resp, req] [c] (greeting E entry ++ streamFrames taken)
  | waiting {c : Child} {taken : List StreamChunk} (hr : reaction X E req = .run c.argv) (hc : Running c taken)
      (hd : Drained c) : Course E entry resp req .waiting [resp, req] [c] (greeting E entry ++ streamFrames taken)
  | ran {c : Child} {taken : List StreamChunk} {code : Int32} (hr : reaction X E req = .run c.argv)
      (hc : Reported False c taken code) :
      Course E entry resp req .idle [resp, req] [c] (greeting E entry ++ (streamFrames taken ++ [exitFrame code]))

/-! ## From the conversation -/

theorem Answered.of_nil {T : Prop} {cs : List Child} {blocks : List (List Frame)} (h : Answered X E T [] cs blocks) :
    cs = [] ∧ blocks = [] := by
  generalize hreqs : ([] : List Frame) = reqs at h
  cases h with
  | nil => exact ⟨rfl, rfl⟩
  | denied h hr hg => simp at hreqs
  | ran h hr hc => simp at hreqs

theorem Answered.of_single {T : Prop} {cs : List Child} {blocks : List (List Frame)}
    (h : Answered X E T [req] cs blocks) : (∃ g, reaction X E req = .deny g ∧ cs = [] ∧ blocks = [[g]]) ∨
    ∃ c taken code, reaction X E req = .run c.argv ∧ Reported T c taken code ∧ cs = [c] ∧
      blocks = [streamFrames taken ++ [exitFrame code]] := by
  generalize hreqs : [req] = reqs at h
  cases h with
  | nil => simp at hreqs
  | @denied reqs _ blocks req' g h hr hg =>
    obtain ⟨rfl, hreq⟩ := List.append_inj' (show [] ++ [req] = reqs ++ [req'] from hreqs) rfl
    rw [List.cons.injEq] at hreq
    obtain ⟨rfl, rfl⟩ := h.of_nil
    exact Or.inl ⟨g, hreq.1 ▸ hr, rfl, rfl⟩
  | @ran reqs cs blocks req' c taken code h hr hc =>
    obtain ⟨rfl, hreq⟩ := List.append_inj' (show [] ++ [req] = reqs ++ [req'] from hreqs) rfl
    rw [List.cons.injEq] at hreq
    obtain ⟨rfl, rfl⟩ := h.of_nil
    exact Or.inr ⟨c, taken, code, hreq.1 ▸ hr, hc, rfl, rfl⟩

/-- No more than the one response and the one request. -/
theorem prefix_pair {resp' : Frame} {reqs : List Frame} (h : resp' :: reqs <+: [resp, req]) :
    resp' = resp ∧ (reqs = [] ∨ reqs = [req]) := by
  obtain ⟨rfl, hreqs⟩ := List.cons_prefix_cons.1 h
  refine ⟨rfl, ?_⟩
  cases reqs with
  | nil => exact Or.inl rfl
  | cons req' reqs =>
    obtain ⟨rfl, hnil⟩ := List.cons_prefix_cons.1 hreqs
    rw [List.prefix_nil.1 hnil]
    exact Or.inr rfl

theorem prefix_pair_snoc {resp' req' : Frame} {reqs : List Frame} (h : resp' :: (reqs ++ [req']) <+: [resp, req]) :
    resp' = resp ∧ req' = req ∧ reqs = [] := by
  obtain ⟨hresp, hreqs | hreqs⟩ := prefix_pair h
  · simp at hreqs
  · obtain ⟨hnil, hreq⟩ := List.append_inj' (show reqs ++ [req'] = [] ++ [req] from hreqs) rfl
    rw [List.cons.injEq] at hreq
    exact ⟨hresp, hreq.1, hnil⟩

/-- What the response and the request of the client lead to. -/
structure Invited (E : Env) (keys : List (AuthorizedKey X)) (entry : AuthorizedKey X) (resp req : Frame) : Prop where
  loaded : loadAuthorizedKeys X E.authorizedKeys = .ok keys
  challenge : (challenge E).Fits DEFAULT_MAX_PAYLOAD_LEN
  accepted : ∃ signature, authReaction E keys resp = .accept entry signature
  authOk : (authOk E entry).Fits DEFAULT_MAX_PAYLOAD_LEN
  answered : (∃ g, reaction X E req = .deny g ∧ g.Fits DEFAULT_MAX_PAYLOAD_LEN) ∨ ∃ argv, reaction X E req = .run argv

variable {keys : List (AuthorizedKey X)} {act : Activity} {reads frames : List Frame} {cs : List Child}

theorem Invited.entry_eq (h : Invited E keys entry resp req) {keys' : List (AuthorizedKey X)} {entry' : AuthorizedKey X}
    (hg : Greeted E keys' resp entry') : entry' = entry := by
  obtain ⟨sig, hsig⟩ := h.accepted
  obtain ⟨sig', hsig'⟩ := hg.accepted
  have hkeys := hg.loaded
  rw [h.loaded, Except.ok.injEq] at hkeys
  rw [← hkeys, hsig, AuthReaction.accept.injEq] at hsig'
  exact hsig'.1.symm

theorem Talk.course (hi : Invited E keys entry resp req) {keys' : List (AuthorizedKey X)}
    (h : Talk E False keys' act reads cs frames) (hreads : reads <+: [resp, req]) :
    Course E entry resp req act reads cs frames := by
  obtain ⟨sig, hacc⟩ := hi.accepted
  have hkeys : ∀ {k : List (AuthorizedKey X)}, loadAuthorizedKeys X E.authorizedKeys = .ok k → k = keys := by
    intro k hk
    rw [hi.loaded, Except.ok.injEq] at hk
    exact hk.symm
  cases h with
  | opening => exact .opening
  | challenged hk hf => exact .challenged
  | heard hk hf hr =>
    obtain ⟨rfl, -⟩ := prefix_pair hreads
    rw [hkeys hk, hacc] at hr
    exact absurd hi.authOk hr
  | refused hk hc hr hf =>
    obtain ⟨rfl, -⟩ := prefix_pair hreads
    rw [hkeys hk, hacc] at hr
    cases hr
  | idle hg ha =>
    obtain ⟨rfl, rfl | rfl⟩ := prefix_pair hreads
    · obtain ⟨rfl, rfl⟩ := ha.of_nil
      rw [hi.entry_eq hg, List.flatten_nil, List.append_nil]
      exact .greeted
    · rw [hi.entry_eq hg]
      rcases ha.of_single with ⟨g, hr, rfl, rfl⟩ | ⟨c, taken, code, hr, hc, rfl, rfl⟩
      · rw [List.flatten_singleton]
        exact .denied hr
      · rw [List.flatten_singleton]
        exact .ran hr hc
  | asked hg ha hr =>
    obtain ⟨rfl, rfl, rfl⟩ := prefix_pair_snoc hreads
    obtain ⟨rfl, rfl⟩ := ha.of_nil
    rw [hi.entry_eq hg, List.flatten_nil, List.append_nil]
    exact .asked hr
  | running hg ha hr hc =>
    obtain ⟨rfl, rfl, rfl⟩ := prefix_pair_snoc hreads
    obtain ⟨rfl, rfl⟩ := ha.of_nil
    rw [hi.entry_eq hg, List.flatten_nil, List.append_nil]
    exact .running hr hc
  | waiting hg ha hr hc hd =>
    obtain ⟨rfl, rfl, rfl⟩ := prefix_pair_snoc hreads
    obtain ⟨rfl, rfl⟩ := ha.of_nil
    rw [hi.entry_eq hg, List.flatten_nil, List.append_nil]
    exact .waiting hr hc hd
  | refusing hg ha hr hf =>
    obtain ⟨-, rfl, -⟩ := prefix_pair_snoc hreads
    rcases hi.answered with ⟨g, hr', -⟩ | ⟨argv, hr'⟩
    · rw [hr'] at hr
      cases hr
    · rw [hr'] at hr
      cases hr

/-- Where a session is on its course. -/
def At (E : Env) (s : State X) (act : Activity) : Prop :=
  s.pc.activity = some act ∨ ∃ r, s.pc = .done r ∧ Ends smooth E s act

theorem course_of_told (hi : Invited E keys entry resp req) (h : Told smooth E s)
    (hreads : readsOf s.log <+: [resp, req]) : ∃ act, At E s act ∧
      Course E entry resp req act (readsOf s.log) (children s) (history s) ∧
      s.out ++ s.pc.rest = encodeAll (history s) := by
  obtain ⟨act, frames, ht, hst⟩ := h
  cases hst with
  | live ha hf ho =>
    subst hf
    exact ⟨act, Or.inl ha, ht.course hi hreads, ho⟩
  | done r hpc hw ho he =>
    rcases he with hio | ⟨rfl, ho', hends⟩
    · exact hio.elim
    · have hh : history s = wrotesOf s.log := by rw [history, hpc]; exact List.append_nil _
      rw [hh]
      exact ⟨act, Or.inr ⟨r, hpc, hends⟩, ht.course hi hreads, by rw [hpc, ho']; exact List.append_nil _⟩

/-! ## What holds on the course -/

/-- **All its frames fit**, those of the command because its chunks are small. -/
theorem Course.fits (hi : Invited E keys entry resp req) (h : Course E entry resp req act reads cs frames)
    (hok : ∀ c ∈ cs, ∀ ch ∈ c.sent, ch.Ok) : ∀ f ∈ frames, f.Fits DEFAULT_MAX_PAYLOAD_LEN := by
  have hgreet : ∀ f ∈ greeting E entry, f.Fits DEFAULT_MAX_PAYLOAD_LEN := by
    intro f hf
    rcases List.mem_pair.1 hf with rfl | rfl
    · exact hi.challenge
    · exact hi.authOk
  have hstream : ∀ {c : Child} {taken : List StreamChunk}, taken <+: c.sent → c ∈ cs →
      ∀ f ∈ streamFrames taken, f.Fits DEFAULT_MAX_PAYLOAD_LEN :=
    fun htaken hc => streamFrames_fits fun ch hch => hok _ hc ch (htaken.subset hch)
  intro f hf
  cases h with
  | opening => cases hf
  | challenged => exact List.mem_singleton.1 hf ▸ hi.challenge
  | greeted => exact hgreet f hf
  | asked hr => exact hgreet f hf
  | denied hr =>
    rcases List.mem_append.1 hf with hf | hf
    · exact hgreet f hf
    · rw [List.mem_singleton.1 hf]
      rcases hi.answered with ⟨g, hr', hg⟩ | ⟨argv, hr'⟩
      · rw [hr', Reaction.deny.injEq] at hr
        exact hr ▸ hg
      · rw [hr'] at hr
        cases hr
  | running hr hc =>
    rcases List.mem_append.1 hf with hf | hf
    · exact hgreet f hf
    · exact hstream ⟨_, hc.queue.symm⟩ (by simp) f hf
  | waiting hr hc hd =>
    rcases List.mem_append.1 hf with hf | hf
    · exact hgreet f hf
    · exact hstream ⟨_, hc.queue.symm⟩ (by simp) f hf
  | ran hr hc =>
    simp only [List.mem_append, List.mem_singleton] at hf
    rcases hf with hf | hf | rfl
    · exact hgreet f hf
    · exact hstream hc.sent (by simp) f hf
    · exact exitFrame_fits _

/-- The receiver of its command is there while somebody may send. -/
theorem Course.live (h : Course E entry resp req act reads (children s) frames) (hat : At E s act) (hrx : Receiving s) :
    AllLive s := by
  have hexec : ∀ {c : Child}, children s = [c] → s.pc.inExec = true → c.Live := by
    intro c hc hin
    obtain ⟨d, hd, hdrx⟩ := hrx hin
    rw [children, hd] at hc
    obtain ⟨-, hcd⟩ := List.append_inj' (show s.leftover ++ [d] = [] ++ [c] from hc) rfl
    rw [List.cons.injEq] at hcd
    exact Or.inl (hcd.1 ▸ hdrx)
  intro c hc
  generalize hcs : children s = cs at h hc
  cases h with
  | opening => cases hc
  | challenged => cases hc
  | greeted => cases hc
  | asked hr => cases hc
  | denied hr => cases hc
  | running hr hrun =>
    rw [List.mem_singleton.1 hc]
    rcases hat with hact | ⟨r, -, hends⟩
    · refine hexec hcs ?_
      cases hpc : s.pc with
      | write f rest k =>
        rw [hpc] at hact
        cases k <;> first | rfl | cases hact
      | recv => rfl
      | _ => rw [hpc] at hact; cases hact
    · exact hends.elim
  | waiting hr hrun hd => exact List.mem_singleton.1 hc ▸ Or.inr hd.2
  | ran hr hrep =>
    rw [List.mem_singleton.1 hc]
    rcases hrep.exit with ⟨hno, -⟩ | ⟨hgone, -⟩
    · exact hno.elim
    · exact Or.inr hgone

theorem says_of_course (hi : Invited E keys entry resp req) {P : Program} (hobey : AllObey P s)
    (h : Course E entry resp req act reads (children s) (history s)) (ho : s.out ++ s.pc.rest = encodeAll (history s)) :
    Says DEFAULT_MAX_PAYLOAD_LEN s.out s.pc.rest (history s) :=
  ⟨ho, h.fits hi fun c hc => (hobey c hc).ok⟩

theorem hears_of_inv (h : Inv E s) : Hears DEFAULT_MAX_PAYLOAD_LEN s.received s.inbuf (readsOf s.log) :=
  ⟨h.base.stream, h.base.fits⟩

/-! ## What is next -/

theorem At.act_eq {act' : Activity} (h : At E s act) (hpc : s.pc.activity = some act') : act = act' := by
  rcases h with h | ⟨r, hr, -⟩
  · rw [hpc, Option.some.injEq] at h
    exact h.symm
  · rw [hr] at hpc
    cases hpc

theorem Course.of_challenged (h : Course E entry resp req .challenged reads cs frames) :
    reads = [] ∧ cs = [] ∧ frames = [Session.challenge E] := by
  cases h
  exact ⟨rfl, rfl, rfl⟩

theorem Course.of_idle (h : Course E entry resp req .idle reads cs frames) : reads = [resp] ∨ reads = [resp, req] := by
  cases h with
  | greeted => exact Or.inl rfl
  | denied hr => exact Or.inr rfl
  | ran hr hc => exact Or.inr rfl

/-- A request that is denied. -/
theorem Course.of_denied (h : Course E entry resp req act reads cs frames) {g : Frame} (hr : reaction X E req = .deny g) :
    frames <+: greeting E entry ++ [g] := by
  cases h with
  | opening => exact List.nil_prefix
  | challenged => exact ⟨[Session.authOk E entry, g], rfl⟩
  | greeted => exact List.prefix_append _ _
  | asked hr' => exact List.prefix_append _ _
  | denied hr' =>
    rw [hr, Reaction.deny.injEq] at hr'
    exact hr' ▸ List.prefix_refl _
  | running hr' hc => rw [hr] at hr'; cases hr'
  | waiting hr' hc hd => rw [hr] at hr'; cases hr'
  | ran hr' hc => rw [hr] at hr'; cases hr'

theorem Course.of_running (h : Course E entry resp req .running reads (children s) frames) {c : Child}
    (hc : s.child = some c) : children s = [c] ∧ ∃ taken, Running c taken := by
  generalize hcs : children s = cs at h
  cases h with
  | running hr hrun =>
    rw [children, hc] at hcs
    obtain ⟨-, hlast⟩ := List.append_inj' (show s.leftover ++ [c] = [] ++ [_] from hcs) rfl
    rw [List.cons.injEq] at hlast
    obtain ⟨rfl, -⟩ := hlast
    exact ⟨rfl, _, hrun⟩

/-- The response is accepted. -/
theorem Invited.handleAuth (h : Invited E keys entry resp req) {t : State X} (hk : t.keys = keys) :
    ∃ sig, handleAuth E t resp = (t.emit (.authed entry sig)).beginWrite (Session.authOk E entry) .authOk := by
  obtain ⟨sig, hacc⟩ := h.accepted
  refine ⟨sig, ?_⟩
  rw [handleAuth_reaction, hk, hacc]

/-- The request is denied or run. -/
theorem Invited.handleFrame (h : Invited E keys entry resp req) (t : State X) :
    (∃ g, g.Fits DEFAULT_MAX_PAYLOAD_LEN ∧ handleFrame E t req = t.beginWrite g .serve) ∨
      ∃ argv, handleFrame E t req = { t with pc := .spawning argv } := by
  rw [handleFrame_reaction]
  rcases h.answered with ⟨g, hr, hg⟩ | ⟨argv, hr⟩ <;> rw [hr]
  · exact Or.inl ⟨g, hg, rfl⟩
  · exact Or.inr ⟨argv, rfl⟩

theorem beginWrite_not_done {f : Frame} (hf : f.Fits DEFAULT_MAX_PAYLOAD_LEN) (t : State X) (k : Cont)
    (r : Except Str Unit) : (t.beginWrite f k).pc ≠ .done r := by
  rw [beginWrite_fits hf]
  nofun

theorem done_keeps {a : Action} {r : Except Str Unit} (hpc : s.pc = .done r) (h : step E s a = some s') :
    s'.pc = .done r := by
  cases step_cases h with
  | clientSend b he => exact hpc
  | clientClose => exact hpc
  | child a c c' hc hstep => exact hpc
  | leftover i a c c' hc hstep => exact hpc
  | _ => simp_all [Pc.onStream, Pc.inExec]

/-- A session that ends has come to the end of what it can read. -/
structure Starved (s : State X) (r : Except Str Unit) (e : ProtocolError) : Prop where
  pc : s.pc = .awaitAuth ∨ s.pc = .serve ∧ (e = .unexpectedEof → r = .ok ())
  error : readFrame DEFAULT_MAX_PAYLOAD_LEN s.inbuf = .error e
  eof : e = .unexpectedEof → s.eof = true

section Next

variable {P : Program} (hi : Invited E keys entry resp req) (hat : At E s act)
  (h : Course E entry resp req act (readsOf s.log) (children s) (history s)) (hobey : AllObey P s)
include hi hat h hobey

/-- **On its course a session ends only where it cannot read on.** -/
theorem done_step {a : Action} (hopen : Opens E s) (hsm : Smooth P s a)
    (hreads : ∀ f r, readFrame DEFAULT_MAX_PAYLOAD_LEN s.inbuf = .ok (f, r) → readsOf s.log ++ [f] <+: [resp, req])
    (hs : step E s a = some s') {r : Except Str Unit} (hd : s'.pc = .done r) :
    s.pc = .done r ∨ ∃ e, Starved s r e := by
  cases step_cases hs with
  | clientSend b he => exact Or.inl hd
  | clientClose => exact Or.inl hd
  | child a c c' hc hstep => exact Or.inl hd
  | leftover i a c c' hc hstep => exact Or.inl hd
  | start hpc =>
    have heq : Session.start E s = State.beginWrite { s with keys } (Session.challenge E) .authResponse := by
      simp only [Session.start, hi.loaded]
    rw [heq] at hd
    exact absurd hd (beginWrite_not_done hi.challenge _ _ _)
  | readAuth f r' hpc hr =>
    -- nothing was read before, so this is the response
    have hact := hat.act_eq (show s.pc.activity = some .challenged by rw [hpc]; rfl)
    subst hact
    obtain ⟨hnil, -, -⟩ := h.of_challenged
    have hf := hreads f r' hr
    rw [hnil] at hf
    obtain ⟨rfl, -⟩ := List.cons_prefix_cons.1 hf
    have hkeys : s.keys = keys := by
      rw [Opens, hpc] at hopen
      have hl := hopen.loaded
      rw [hi.loaded, Except.ok.injEq] at hl
      exact hl.symm
    obtain ⟨sig, heq⟩ := hi.handleAuth (t := State.emit { s with inbuf := r' } (.read f)) hkeys
    rw [heq] at hd
    exact absurd hd (beginWrite_not_done hi.authOk _ _ _)
  | readServe f r' hpc hr =>
    -- the response was read before, so this is the request
    have hact := hat.act_eq (show s.pc.activity = some .idle by rw [hpc]; rfl)
    subst hact
    have hf := hreads f r' hr
    rcases h.of_idle with hone | htwo
    · rw [hone] at hf
      obtain ⟨-, hf⟩ := List.cons_prefix_cons.1 hf
      obtain ⟨rfl, -⟩ := List.cons_prefix_cons.1 hf
      rcases hi.handleFrame (State.emit { s with inbuf := r' } (.read f)) with ⟨g, hg, heq⟩ | ⟨argv, heq⟩ <;> rw [heq] at hd
      · exact absurd hd (beginWrite_not_done hg _ _ _)
      · cases hd
    · rw [htwo] at hf
      exact absurd hf.length_le (by simp)
  | readFail r' e hpc hr he =>
    cases hd
    refine Or.inr ⟨e, ?_, hr, he⟩
    rcases hpc with hpc | hpc
    · exact Or.inl hpc
    · refine Or.inr ⟨hpc, fun hee => ?_⟩
      subst hee
      simp only [step, hpc, read, hr, he rfl, if_true, Option.some.injEq] at hs
      have hdone := congrArg State.pc hs
      simpa using hdone.symm
  | put n f rest k hpc h0 hn => cases hd
  | flushed f k hpc =>
    cases k with
    | finish =>
      -- no such frame on the course
      have hact := hat.act_eq (show s.pc.activity = some .closing by rw [hpc]; rfl)
      subst hact
      cases h
    | _ => cases hd
  | ioError e hpc => exact hsm.elim
  | spawnOk argv hpc => cases hd
  | spawnErr e argv hpc => exact hsm.elim
  | recv c ch q hpc hc hq =>
    have hmem : c ∈ children s := by simp [children, hc]
    have hact := hat.act_eq (show s.pc.activity = some .running by rw [hpc]; rfl)
    subst hact
    obtain ⟨-, taken, hrun⟩ := h.of_running hc
    have hch : ch ∈ c.sent := by
      rw [hrun.queue, hq]
      simp
    exact absurd hd (beginWrite_not_done (chunkFrame_fits ((hobey c hmem).ok ch hch)) _ _ _)
  | recvNone c hpc hc hq hg => cases hd
  | waitOk c code hpc hc hst => exact absurd hd (beginWrite_not_done (exitFrame_fits _) _ _ _)
  | waitErr e hpc => exact hsm.elim
  | timeout hpc => exact hsm.elim

end Next

end Sao.Session
