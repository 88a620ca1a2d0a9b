import Sao.Server.AuthSafety

/-!
# What a session begins with

* `opens_run` — in every state reached the challenge comes first on the stream, and until a response
  has been read the keys are those of the file.
* `Opening.first_frame` — the first whole frame on the stream of a session is its challenge.
* `run_opening` — a session whose key file loads gets to wait for the response.
-/

namespace Sao.Session

variable {X : Ext} {E : Env} {s s' : State X} {keys : List (AuthorizedKey X)} {out : Bytes} {pc : Pc}

/-- The challenge is on the stream. -/
def Sent (E : Env) (out : Bytes) : Prop := (challenge E).Fits DEFAULT_MAX_PAYLOAD_LEN ∧ encode (challenge E) <+: out

/-- The challenge is on its way, in the bytes `out ++ rest`. -/
structure Greets (E : Env) (keys : List (AuthorizedKey X)) (out rest : Bytes) : Prop where
  loaded : loadAuthorizedKeys X E.authorizedKeys = .ok keys
  fits : (challenge E).Fits DEFAULT_MAX_PAYLOAD_LEN
  onStream : out ++ rest = encode (challenge E)

/-- Where the challenge is. -/
def Opening (E : Env) (keys : List (AuthorizedKey X)) (out : Bytes) : Pc → Prop
  | .start => out = []
  | .write _ rest .authResponse => Greets E keys out rest
  | .awaitAuth => Greets E keys out []
  | .done _ => out = [] ∨ (challenge E).Fits DEFAULT_MAX_PAYLOAD_LEN ∧
      (out <+: encode (challenge E) ∨ encode (challenge E) <+: out)
  | _ => Sent E out

theorem Greets.sent (h : Greets E keys out []) : Sent E out :=
  ⟨h.fits, [], h.onStream ▸ by simp⟩

theorem opening_of_sent (h : Sent E out) (hst : pc.stage ≠ .auth) : Opening E keys out pc := by
  cases pc with
  | start => exact absurd rfl hst
  | awaitAuth => exact absurd rfl hst
  | done r => exact Or.inr ⟨h.1, Or.inr h.2⟩
  | write f rest k =>
    cases k with
    | authResponse => exact absurd rfl hst
    | _ => exact h
  | _ => exact h

theorem Opening.sent (h : Opening E keys out pc) (hst : pc.stage ≠ .auth) (hd : ∀ r, pc ≠ .done r) : Sent E out := by
  cases pc with
  | start => exact absurd rfl hst
  | awaitAuth => exact absurd rfl hst
  | done r => exact absurd rfl (hd r)
  | write f rest k =>
    cases k with
    | authResponse => exact absurd rfl hst
    | _ => exact h
  | _ => exact h

theorem Opening.done (h : Opening E keys out pc) (r : Except Str Unit) : Opening E keys out (.done r) := by
  cases pc with
  | start => exact Or.inl h
  | awaitAuth => exact Or.inr ⟨h.fits, Or.inr (Greets.sent h).2⟩
  | done r => exact h
  | write f rest k =>
    cases k with
    | authResponse => exact Or.inr ⟨h.fits, Or.inl ⟨_, h.onStream⟩⟩
    | _ => exact Or.inr ⟨h.1, Or.inr h.2⟩
  | _ => exact Or.inr ⟨h.1, Or.inr h.2⟩

/-- The session keeps to it. -/
def Opens (E : Env) (s : State X) : Prop := Opening E s.keys s.out s.pc

theorem opens_beginWrite (h : Sent E s.out) (f : Frame) {k : Cont} (hk : k.stage ≠ .auth) :
    Opens E (s.beginWrite f k) := by
  rcases beginWrite_cases s f k with ⟨-, heq⟩ | ⟨e, heq⟩ <;> rw [heq]
  · exact opening_of_sent h hk
  · exact opening_of_sent h (by intro h; cases h)

theorem opens_start (h : s.out = []) : Opens E (start E s) := by
  unfold start
  cases hload : loadAuthorizedKeys X E.authorizedKeys with
  | error e => exact Or.inl h
  | ok keys =>
    rcases beginWrite_cases { s with keys } (challenge E) .authResponse with ⟨hf, heq⟩ | ⟨e, heq⟩ <;> simp only [heq]
    · exact ⟨hload, hf, by simp [h]⟩
    · exact Or.inl h

theorem Opening.put {f : Frame} {rest : Bytes} {k : Cont} (h : Opening E keys out (.write f rest k)) (n : Nat) :
    Opening E keys (out ++ rest.take n) (.write f (rest.drop n) k) := by
  cases k with
  | authResponse => exact ⟨h.loaded, h.fits, by rw [List.append_assoc, List.take_append_drop, h.onStream]⟩
  | _ => exact ⟨h.1, h.2.trans (List.prefix_append _ _)⟩

theorem opens_flushed {f : Frame} {k : Cont} (h : Opening E s.keys s.out (.write f [] k)) :
    Opens E (afterWrite s f k) := by
  cases k with
  | authResponse => exact h
  | finish => exact Or.inr ⟨h.1, Or.inr h.2⟩
  | _ => exact h

theorem opens_step {a : Action} (h : Opens E s) (hs : step E s a = some s') : Opens E s' := by
  -- once the response has been read, the challenge is on the stream
  have hsent : s.pc.stage ≠ .auth → (∀ r, s.pc ≠ .done r) → Sent E s.out := fun hst hd => Opening.sent h hst hd
  have hserved : ∀ {pc : Pc}, s.pc = pc → pc.stage = .served → Sent E s.out := by
    rintro pc rfl hst
    refine hsent (by rw [hst]; nofun) fun r hr => ?_
    rw [hr] at hst
    cases hst
  cases step_cases hs with
  | clientSend b he => exact h
  | clientClose => exact h
  | child a c c' hc hstep => exact h
  | leftover i a c c' hc hstep => exact h
  | start hpc =>
    rw [Opens, hpc] at h
    exact opens_start h
  | readAuth f r hpc hr =>
    rw [Opens, hpc] at h
    have hout : Sent E s.out := Greets.sent h
    rcases handleAuth_cases E ({ s with inbuf := r }.emit (.read f)) f with ⟨entry, ar, -, heq⟩ | ⟨g, heq⟩ | ⟨r, heq⟩ <;>
      rw [heq]
    · refine opens_beginWrite ?_ _ (by nofun)
      exact hout
    · refine opens_beginWrite ?_ _ (by nofun)
      exact hout
    · exact opening_of_sent hout (by intro h; cases h)
  | readServe f r hpc hr =>
    have hout := hserved hpc rfl
    rcases handleFrame_cases E ({ s with inbuf := r }.emit (.read f)) f with ⟨shell, -, -, heq⟩ | ⟨g, k, hk, heq⟩ |
      ⟨r, heq⟩ <;> rw [heq]
    · exact hout
    · refine opens_beginWrite ?_ _ (by rcases hk with rfl | rfl <;> nofun)
      exact hout
    · exact opening_of_sent hout (by intro h; cases h)
  | readFail r e hpc hr he => exact Opening.done h r
  | put n f rest k hpc h0 hn =>
    rw [Opens, hpc] at h
    exact Opening.put h n
  | flushed f k hpc =>
    rw [Opens, hpc] at h
    exact opens_flushed h
  | ioError e hpc => exact Opening.done h _
  | spawnOk argv hpc => exact hserved hpc rfl
  | spawnErr e argv hpc => exact Opening.done h _
  | recv c chunk q hpc hc hq =>
    refine opens_beginWrite ?_ _ (by nofun)
    exact hserved hpc rfl
  | recvNone c hpc hc hq hg => exact hserved hpc rfl
  | waitOk c code hpc hc hst =>
    refine opens_beginWrite ?_ _ (by nofun)
    exact hserved hpc rfl
  | waitErr e hpc => exact Opening.done h _
  | timeout hpc =>
    refine opens_beginWrite ?_ _ (by nofun)
    exact hserved rfl (stage_of_inExec hpc)

theorem opens_init : Opens E (init X) := rfl

theorem opens_run {as : List Action} (h : run E (init X) as = some s) : Opens E s :=
  Lts.run_inv (Opens E) (fun _ _ _ hi hs => opens_step hi hs) opens_init h

/-- **The first frame of a session is its challenge.** -/
theorem Opening.first_frame (h : Opening E keys out pc) {f : Frame} (hf : f.Fits DEFAULT_MAX_PAYLOAD_LEN)
    (hpre : encode f <+: out) : f = challenge E := by
  have hdone : out = [] ∨ (challenge E).Fits DEFAULT_MAX_PAYLOAD_LEN ∧
      (out <+: encode (challenge E) ∨ encode (challenge E) <+: out) := h.done (.ok ())
  rcases hdone with rfl | ⟨hch, hcmp⟩
  · exact absurd (List.prefix_nil.1 hpre) (encode_ne_nil f)
  have hor : encode f <+: encode (challenge E) ∨ encode (challenge E) <+: encode f := by
    rcases hcmp with hcmp | hcmp
    · exact Or.inl (hpre.trans hcmp)
    · exact List.prefix_or_prefix_of_prefix hpre hcmp
  rcases hor with ⟨r, hr⟩ | ⟨r, hr⟩
  · exact (encode_append_inj hf hch (hr.trans (List.append_nil _).symm)).1
  · exact (encode_append_inj hch hf (hr.trans (List.append_nil _).symm)).1.symm

/-! ## Up to the response -/

/-- A session that has sent its challenge, and has heard nothing. -/
def waiting (E : Env) (keys : List (AuthorizedKey X)) : State X :=
  { init X with keys, out := encode (challenge E), pc := .awaitAuth, log := [.wrote (challenge E)] }

/-- The actions up to there. -/
def openingActions (E : Env) : List Action := [.start, .put (encode (challenge E)).length, .flushed]

theorem run_opening (hload : loadAuthorizedKeys X E.authorizedKeys = .ok keys)
    (hf : (challenge E).Fits DEFAULT_MAX_PAYLOAD_LEN) : run E (init X) (openingActions E) = some (waiting E keys) := by
  have hstart : step E (init X) .start =
      some { init X with keys, pc := .write (challenge E) (encode (challenge E)) .authResponse } := by
    show some (start E (init X)) = _
    simp only [start, hload, beginWrite_fits hf]
  exact (run_cons_eq hstart _).trans ((run_write rfl []).trans rfl)

/-- A session that is sent a response it accepts authenticates its entry. -/
theorem run_accepted {resp : Frame} {entry : AuthorizedKey X} {ar : AuthResponsePayload}
    (hacc : Accepted E keys resp entry ar) (hf : resp.Fits DEFAULT_MAX_PAYLOAD_LEN)
    (hok : (authOk E entry).Fits DEFAULT_MAX_PAYLOAD_LEN) :
    ∃ t, run E (waiting E keys) [.clientSend (encode resp), .read] = some t ∧
      t.log = [.wrote (challenge E), .read resp, .authed entry ar.signature] := by
  have hsend : step E (waiting E keys) (.clientSend (encode resp)) =
      some { waiting E keys with received := encode resp, inbuf := encode resp } := rfl
  have hread : step E { waiting E keys with received := encode resp, inbuf := encode resp } .read =
      some (handleAuth E ({ waiting E keys with received := encode resp, inbuf := [] }.emit (.read resp)) resp) :=
    step_readAuth rfl hf (by rw [List.append_nil])
  rw [run_cons_eq hsend, run_cons_eq hread, handleAuth_accepted hacc hok]
  exact ⟨_, rfl, rfl⟩

end Sao.Session
