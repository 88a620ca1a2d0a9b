import Sao.Lib.Lts
import Sao.Protocol.Wire

/-!
# `read_frame`, one `read` at a time

`FrameCodec::read_frame` called until it fails, with its two `read_exact`s as loops: each `read` takes as many
bytes as it gets, but no more than the buffer has room for. The rest of the development reads frames off a byte
string with `readFrame`; here is why it may.

| here | there |
| --- | --- |
| `Pc.header`, `Pc.payload` | `read_exact(&mut hdr)`, `read_exact(&mut payload)`, with the bytes they have |
| `gotHeader`               | between the two |
| `take`, `takeEof`         | `read` returns `n` bytes, or none because the stream has ended |
| `arrive`, `close`         | what the other end does |

* `reads_step` — the task holds nothing but the beginning of the frame it is reading.
* `buffer_le` — and so never more than a header and the maximum, whatever a header declares.
* `frames_iff` — in whatever pieces the bytes come and are taken, the frames and the error are those of `readAll`.
-/

namespace Sao.ReadExact

inductive Pc where
  | header (got : Bytes)
  /-- The buffer has `len` bytes. -/
  | payload (hdr : Bytes) (msgType : UInt8) (len : Nat) (got : Bytes)
  | failed (e : ProtocolError)
deriving DecidableEq, Repr

structure State where
  /-- All bytes that have arrived. -/
  received : Bytes
  /-- Those the task has not taken. -/
  inbuf : Bytes
  eof : Bool
  /-- What the calls have returned. -/
  frames : List Frame
  pc : Pc
deriving DecidableEq, Repr

def init : State := ⟨[], [], false, [], .header []⟩

inductive Action where
  | arrive (b : Bytes)
  | close
  | take (n : Nat)
  | takeEof
  | ioError (e : Str)
deriving DecidableEq, Repr

variable (M : UInt32)

/-- What a full header leads to. -/
def gotHeader (s : State) (hdr : Bytes) : State :=
  match parseHeader hdr with
  | .error e => { s with pc := .failed e }
  | .ok (_version, msgType, payloadLen) =>
    if payloadLen > M then { s with pc := .failed (.payloadTooLarge payloadLen M) }
    else match usizeTryFrom payloadLen with
      | .error e => { s with pc := .failed e }
      | .ok len =>
        if len > 0 then { s with pc := .payload hdr msgType len [] }
        else { s with frames := s.frames ++ [⟨msgType, []⟩], pc := .header [] }

/-- How many bytes the buffer has room for. -/
def Pc.room : Pc → Nat
  | .header got => HEADER_LEN - got.length
  | .payload _ _ len got => len - got.length
  | .failed _ => 0

/-- The `read` has returned these bytes. -/
def got (s : State) (b : Bytes) : State :=
  match s.pc with
  | .header held =>
    if (held ++ b).length < HEADER_LEN then { s with pc := .header (held ++ b) } else gotHeader M s (held ++ b)
  | .payload hdr msgType len held =>
    if (held ++ b).length < len then { s with pc := .payload hdr msgType len (held ++ b) }
    else { s with frames := s.frames ++ [⟨msgType, held ++ b⟩], pc := .header [] }
  | .failed _ => s

def step (s : State) : Action → Option State
  | .arrive b => if s.eof then none else some { s with received := s.received ++ b, inbuf := s.inbuf ++ b }
  | .close => some { s with eof := true }
  | .take n =>
    if 0 < n ∧ n ≤ s.pc.room ∧ n ≤ s.inbuf.length then
      some (got M { s with inbuf := s.inbuf.drop n } (s.inbuf.take n))
    else none
  | .takeEof =>
    if 0 < s.pc.room ∧ s.inbuf = [] ∧ s.eof = true then some { s with pc := .failed .unexpectedEof } else none
  | .ioError e => if 0 < s.pc.room then some { s with pc := .failed (.io e) } else none

def run (s : State) (as : List Action) : Option State := Lts.run (step M) s as

variable {M} {s s' : State}

/-! ## What the task holds -/

/-- Where the task stands, and the bytes it has taken of the frame it is reading; `B` allows a read to fail. -/
inductive Stands (B : Prop) (M : UInt32) : Pc → Bytes → Prop where
  | header {held : Bytes} (h : held.length < HEADER_LEN) : Stands B M (.header held) held
  | payload {hdr held : Bytes} {v t : UInt8} {n : UInt32} (hlen : hdr.length = HEADER_LEN)
      (hp : parseHeader hdr = .ok (v, t, n)) (hn : ¬ n > M) (h : held.length < n.toNat) :
      Stands B M (.payload hdr t n.toNat held) (hdr ++ held)
  | failed {e : ProtocolError} {r : Bytes} (h : readFrame M r = .error e) : Stands B M (.failed e) r
  | broken {e : Str} {r : Bytes} (h : B) : Stands B M (.failed (.io e)) r

/-- What has arrived: the frames returned, what the task holds, and what it has not taken. -/
structure Reads (B : Prop) (M : UInt32) (s : State) (r : Bytes) : Prop where
  fits : ∀ f ∈ s.frames, f.Fits M
  stream : s.received = encodeAll s.frames ++ (r ++ s.inbuf)
  stands : Stands B M s.pc r
  ended : s.pc = .failed .unexpectedEof → s.inbuf = [] ∧ s.eof = true

variable {B : Prop}

theorem reads_init : Reads B M init [] := ⟨nofun, rfl, .header (by decide), nofun⟩

theorem readFrame_parse_error {hdr : Bytes} {e : ProtocolError} (hlen : hdr.length = HEADER_LEN)
    (hp : parseHeader hdr = .error e) : readFrame M hdr = .error e := by
  have hx : readExact HEADER_LEN hdr = .ok (hdr, []) := by
    have := readExact_append hdr []
    rwa [hlen, List.append_nil] at this
  simp only [readFrame, hx, bind, Except.bind, hp]

/-- As long as there is room the frame is not whole. -/
theorem Stands.waits {pc : Pc} {r : Bytes} (h : Stands B M pc r) (hroom : 0 < pc.room) :
    readFrame M r = .error .unexpectedEof := by
  cases h with
  | header h => exact readFrame_truncated (Or.inl h)
  | payload hlen hp hn h => rw [readFrame_of_parseHeader hlen hp, if_neg hn, if_neg (by omega)]
  | failed h => exact absurd hroom (Nat.lt_irrefl 0)
  | broken h => exact absurd hroom (Nat.lt_irrefl 0)

/-- **The room is what `wanted` says.** -/
theorem Stands.room_eq {pc : Pc} {r : Bytes} (h : Stands B M pc r) (hroom : 0 < pc.room) : pc.room = wanted M r := by
  cases h with
  | header h => exact (if_pos h).symm
  | @payload hdr held v t n hlen hp hn h =>
    have hlong : ¬ (hdr ++ held).length < HEADER_LEN := by rw [List.length_append]; omega
    rw [wanted, if_neg hlong, List.take_left' hlen, hp]
    simp only [if_neg hn, Pc.room, List.length_append, hlen]
    omega
  | failed h => exact absurd hroom (Nat.lt_irrefl 0)
  | broken h => exact absurd hroom (Nat.lt_irrefl 0)

/-- **The task holds no more than a header and the maximum.** -/
theorem Stands.held_le {pc : Pc} {r : Bytes} (h : Stands B M pc r) (hroom : 0 < pc.room) :
    r.length + pc.room ≤ HEADER_LEN + M.toNat := by
  have hpos : 0 < wanted M r := h.room_eq hroom ▸ hroom
  rw [h.room_eq hroom]
  rcases wanted_le M r with hzero | hle
  · omega
  · exact hle

/-! ## Steps -/

section Got

variable {r : Bytes} (hfits : ∀ f ∈ s.frames, f.Fits M) (hstream : s.received = encodeAll s.frames ++ (r ++ s.inbuf))
include hfits hstream

theorem reads_returned {f : Frame} (hr : readFrame M r = .ok (f, [])) :
    Reads B M { s with frames := s.frames ++ [f], pc := .header [] } [] := by
  obtain ⟨hf, hbytes⟩ := readFrame_ok_iff.1 hr
  refine ⟨fun g hg => ?_, ?_, .header (by decide), nofun⟩
  · rcases List.mem_append.1 hg with hg | hg
    · exact hfits g hg
    · exact List.mem_singleton.1 hg ▸ hf
  · rw [hstream, hbytes]
    simp

theorem reads_failed {e : ProtocolError} (hr : readFrame M r = .error e) (he : e ≠ .unexpectedEof) :
    Reads B M { s with pc := .failed e } r :=
  ⟨hfits, hstream, .failed hr, fun hpc => absurd (Pc.failed.inj hpc) he⟩

/-- A full header leads to its payload, to a frame without one, or to an error. -/
theorem reads_gotHeader (hlen : r.length = HEADER_LEN) : ∃ r', Reads B M (gotHeader M s r) r' := by
  unfold gotHeader
  cases hp : parseHeader r with
  | error e =>
    refine ⟨r, reads_failed hfits hstream (readFrame_parse_error hlen hp) ?_⟩
    rintro rfl
    unfold parseHeader at hp
    split at hp
    · cases hp
    · split at hp <;> cases hp
  | ok h =>
    obtain ⟨v, t, n⟩ := h
    have hread := readFrame_of_parseHeader (M := M) (s := []) hlen hp
    rw [List.append_nil] at hread
    dsimp only
    split
    · rename_i hn
      rw [if_pos hn] at hread
      exact ⟨r, reads_failed hfits hstream hread nofun⟩
    · rename_i hn
      rw [if_neg hn] at hread
      rw [usizeTryFrom_ok]
      dsimp only
      split
      · rename_i hpos
        refine ⟨r ++ [], hfits, ?_, .payload hlen hp hn hpos, nofun⟩
        rw [List.append_nil]
        exact hstream
      · rename_i hzero
        rw [if_pos (by omega)] at hread
        exact ⟨[], reads_returned hfits hstream (by simpa using hread)⟩

end Got

/-- The task has been given no more than it has room for. -/
theorem reads_got {b r : Bytes} (hfits : ∀ f ∈ s.frames, f.Fits M)
    (hstream : s.received = encodeAll s.frames ++ (r ++ b ++ s.inbuf)) (hstands : Stands B M s.pc r)
    (hroom : 0 < s.pc.room) (hb : b.length ≤ s.pc.room) : ∃ r', Reads B M (got M s b) r' := by
  unfold got
  generalize s.pc = pc at hstands hroom hb
  cases hstands with
  | header h =>
    dsimp only
    split
    · rename_i hlt
      exact ⟨_, hfits, hstream, .header hlt, nofun⟩
    · rename_i hge
      refine reads_gotHeader hfits hstream ?_
      simp only [Pc.room] at hb
      simp only [List.length_append] at hge ⊢
      omega
  | @payload hdr held v t n hlen hp hn h =>
    rw [List.append_assoc] at hstream
    dsimp only
    split
    · rename_i hlt
      refine ⟨hdr ++ (held ++ b), hfits, ?_, .payload hlen hp hn hlt, nofun⟩
      simpa using hstream
    · rename_i hge
      refine ⟨[], reads_returned (r := hdr ++ (held ++ b)) hfits ?_ ?_⟩
      · simpa using hstream
      · have hall : (held ++ b).length = n.toNat := by
          simp only [Pc.room] at hb
          simp only [List.length_append] at hge ⊢
          omega
        rw [readFrame_of_parseHeader hlen hp, if_neg hn, if_pos (Nat.le_of_eq hall.symm), ← hall, List.take_length,
          List.drop_length]
  | failed h => exact absurd hroom (Nat.lt_irrefl 0)
  | broken h => exact absurd hroom (Nat.lt_irrefl 0)

/-- No read fails. -/
def Action.Calm : Action → Prop
  | .ioError _ => False
  | _ => True

theorem reads_step {a : Action} {r : Bytes} (ha : B ∨ a.Calm) (h : Reads B M s r) (hs : step M s a = some s') :
    ∃ r', Reads B M s' r' := by
  cases a with
  | arrive b =>
    simp only [step] at hs
    split at hs
    · cases hs
    · rename_i hopen
      cases hs
      refine ⟨r, h.fits, by simp [h.stream], h.stands, fun hpc => ?_⟩
      exact absurd (h.ended hpc).2 hopen
  | close =>
    cases hs
    exact ⟨r, h.fits, h.stream, h.stands, fun hpc => ⟨(h.ended hpc).1, rfl⟩⟩
  | take n =>
    simp only [step] at hs
    split at hs
    · rename_i hn
      cases hs
      have hlen : (s.inbuf.take n).length = n := by rw [List.length_take, Nat.min_eq_left hn.2.2]
      refine reads_got (s := { s with inbuf := s.inbuf.drop n }) h.fits ?_ h.stands (Nat.lt_of_lt_of_le hn.1 hn.2.1) ?_
      · show s.received = _
        rw [h.stream, List.append_assoc r, List.take_append_drop]
      · rw [hlen]
        exact hn.2.1
    · cases hs
  | takeEof =>
    simp only [step] at hs
    split at hs
    · rename_i hend
      cases hs
      exact ⟨r, h.fits, h.stream, .failed (h.stands.waits hend.1), fun _ => hend.2⟩
    · cases hs
  | ioError e =>
    simp only [step] at hs
    split at hs
    · cases hs
      exact ⟨r, h.fits, h.stream, .broken (ha.resolve_right id), nofun⟩
    · cases hs

/-- **Whatever arrives and however it is taken**, the task never has a buffer for more than a header and the maximum,
and asks for what the frame lacks. -/
theorem buffer_le {as : List Action} (h : run M init as = some s) (hroom : 0 < s.pc.room) :
    ∃ held, s.received = encodeAll s.frames ++ (held ++ s.inbuf) ∧ s.pc.room = wanted M held ∧
      held.length + s.pc.room ≤ HEADER_LEN + M.toNat := by
  obtain ⟨r, hr⟩ := Lts.run_inv (fun s => ∃ r, Reads True M s r)
    (fun _ _ _ ⟨_, hi⟩ hs => reads_step (Or.inl trivial) hi hs) ⟨[], reads_init⟩ h
  exact ⟨r, hr.stream, hr.stands.room_eq hroom, hr.stands.held_le hroom⟩

/-- A header that declares three bytes of five. -/
theorem buffer_le_declared : ∃ (s : State) (held : Bytes), s.pc.room = 3 ∧
    run 5 init [.arrive (writeHeader VERSION 0x11 3), .take 9] = some s ∧ held.length + 3 ≤ HEADER_LEN + 5 := by
  have hrun : run 5 init [.arrive (writeHeader VERSION 0x11 3), .take 9] = some ⟨writeHeader VERSION 0x11 3, [], false,
      [], .payload (writeHeader VERSION 0x11 3) 0x11 3 []⟩ := by decide +kernel
  obtain ⟨held, -, -, hle⟩ := buffer_le hrun (by decide)
  exact ⟨_, held, rfl, hrun, hle⟩

/-! ## Every stream -/

def State.error (s : State) : Option ProtocolError :=
  match s.pc with
  | .failed e => some e
  | _ => none

/-- The error of the last call, if it returns. -/
def lastError (e : ProtocolError) (eof : Bool) : Option ProtocolError :=
  if e ≠ .unexpectedEof ∨ eof = true then some e else none

/-- What the task does. -/
def Action.Own : Action → Prop
  | .take _ | .takeEof => True
  | _ => False

theorem Action.Own.calm {a : Action} (h : a.Own) : a.Calm := by
  cases a <;> trivial

theorem Stands.room_pos {pc : Pc} {r : Bytes} (h : Stands B M pc r) : (∃ e, pc = .failed e) ∨ 0 < pc.room := by
  cases h with
  | header h => exact Or.inr (by simp only [Pc.room]; omega)
  | payload hlen hp hn h => exact Or.inr (by simp only [Pc.room]; omega)
  | failed h => exact Or.inl ⟨_, rfl⟩
  | broken h => exact Or.inl ⟨_, rfl⟩

/-- With room, the task at rest has taken all there is, and the stream may go on. -/
theorem rests_empty (h : Lts.Rests (step M) Action.Own s) (hroom : 0 < s.pc.room) : s.inbuf = [] ∧ s.eof = false := by
  have hnil : s.inbuf = [] := by
    by_contra hne
    have htake := h (.take 1) trivial
    simp only [step] at htake
    rw [if_pos ⟨Nat.one_pos, hroom, List.length_pos_iff.2 hne⟩] at htake
    cases htake
  refine ⟨hnil, ?_⟩
  cases heof : s.eof with
  | false => rfl
  | true =>
    have hend := h .takeEof trivial
    simp only [step] at hend
    rw [if_pos ⟨hroom, hnil, heof⟩] at hend
    cases hend

theorem Reads.at_rest {r : Bytes} (h : Reads False M s r) (hrest : Lts.Rests (step M) Action.Own s) :
    s.frames = (readAll M s.received).1 ∧ s.error = lastError (readAll M s.received).2.1 s.eof := by
  have hall : ∀ e, readFrame M (r ++ s.inbuf) = .error e → readAll M s.received = (s.frames, e, r ++ s.inbuf) :=
    fun e he => h.stream ▸ readAll_unique h.fits he
  rcases h.stands.room_pos with ⟨e, hpc⟩ | hroom
  · have hread : readFrame M r = .error e := by
      have hst := h.stands
      rw [hpc] at hst
      cases hst with
      | failed hr => exact hr
      | broken hb => exact hb.elim
    have herror : s.error = some e := by rw [State.error, hpc]
    by_cases heof : e = .unexpectedEof
    · obtain ⟨hnil, hclosed⟩ := h.ended (heof ▸ hpc)
      rw [hall e (by rwa [hnil, List.append_nil]), herror, lastError, if_pos (Or.inr hclosed)]
      exact ⟨rfl, rfl⟩
    · rw [hall e (readFrame_error_append hread heof s.inbuf), herror, lastError, if_pos (Or.inl heof)]
      exact ⟨rfl, rfl⟩
  · obtain ⟨hnil, hopen⟩ := rests_empty hrest hroom
    have herror : s.error = none := by
      unfold State.error
      split
      · rename_i e hpc
        rw [hpc] at hroom
        exact absurd hroom (Nat.lt_irrefl 0)
      · rfl
    rw [hall _ (by rw [hnil, List.append_nil]; exact h.stands.waits hroom), herror, lastError, hopen]
    exact ⟨rfl, rfl⟩

/-- What has been taken is the task's own matter. -/
theorem got_keeps (s : State) (b : Bytes) :
    (got M s b).received = s.received ∧ (got M s b).inbuf = s.inbuf ∧ (got M s b).eof = s.eof := by
  unfold got gotHeader
  split
  · split
    · exact ⟨rfl, rfl, rfl⟩
    · split
      · exact ⟨rfl, rfl, rfl⟩
      · split
        · exact ⟨rfl, rfl, rfl⟩
        · split
          · exact ⟨rfl, rfl, rfl⟩
          · split <;> exact ⟨rfl, rfl, rfl⟩
  · split <;> exact ⟨rfl, rfl, rfl⟩
  · exact ⟨rfl, rfl, rfl⟩

/-- Every step takes something, or is the last. -/
def State.remaining (s : State) : Nat := s.inbuf.length + if s.pc.room = 0 then 0 else 1

theorem own_step {a : Action} (ha : a.Own) (hs : step M s a = some s') :
    s'.received = s.received ∧ s'.eof = s.eof ∧ s'.remaining < s.remaining := by
  cases a with
  | take n =>
    simp only [step] at hs
    split at hs
    · rename_i hn
      cases hs
      obtain ⟨hr, hi, he⟩ := got_keeps (M := M) { s with inbuf := s.inbuf.drop n } (s.inbuf.take n)
      refine ⟨hr, he, ?_⟩
      unfold State.remaining
      rw [hi, List.length_drop, if_neg (show ¬ s.pc.room = 0 by omega)]
      split <;> omega
    · cases hs
  | takeEof =>
    simp only [step] at hs
    split at hs
    · rename_i hend
      cases hs
      refine ⟨rfl, rfl, ?_⟩
      unfold State.remaining
      rw [if_neg (show ¬ s.pc.room = 0 by omega)]
      exact Nat.lt_succ_self _
    · cases hs
  | _ => exact ha.elim

/-- **The loops read what `readAll` reads.** For every stream, open or ended: in whatever pieces its bytes arrive and
are taken, the calls of `read_frame` come to rest having returned the frames of `readAll`, and the last call returns
its error, or waits. -/
theorem frames_iff (M : UInt32) (b : Bytes) (eof : Bool) (fs : List Frame) (o : Option ProtocolError) :
    (∃ as s, run M init as = some s ∧ (∀ a ∈ as, a.Calm) ∧ Lts.Rests (step M) Action.Own s ∧ s.received = b ∧
      s.eof = eof ∧ s.frames = fs ∧ s.error = o) ↔ fs = (readAll M b).1 ∧ o = lastError (readAll M b).2.1 eof := by
  have hcalm : ∀ {as : List Action} {s : State}, run M init as = some s → (∀ a ∈ as, a.Calm) →
      ∃ r, Reads False M s r := fun hrun hc =>
    Lts.run_inv_of Action.Calm (fun s => ∃ r, Reads False M s r)
      (fun _ _ _ ha ⟨_, hi⟩ hs => reads_step (Or.inr ha) hi hs) hc ⟨[], reads_init⟩ hrun
  constructor
  · rintro ⟨as, s, hrun, hc, hrest, rfl, rfl, rfl, rfl⟩
    obtain ⟨r, hr⟩ := hcalm hrun hc
    exact hr.at_rest hrest
  · rintro ⟨rfl, rfl⟩
    -- everything arrives at once, and the task takes it
    obtain ⟨as, s, hrun, hown, hrest⟩ : ∃ as s, run M { init with received := b, inbuf := b, eof := eof } as = some s ∧
        (∀ a ∈ as, a.Own) ∧ Lts.Rests (step M) Action.Own s :=
      Lts.run_to_rest State.remaining (fun _ _ _ ha hs => (own_step ha hs).2.2) _
    have hkeeps : s.received = b ∧ s.eof = eof :=
      Lts.run_inv_of Action.Own (fun t => t.received = b ∧ t.eof = eof)
        (fun _ _ _ ha hi hs => ⟨(own_step ha hs).1.trans hi.1, (own_step ha hs).2.1.trans hi.2⟩) hown ⟨rfl, rfl⟩ hrun
    have harrive : ∃ pre : List Action, (∀ a ∈ pre, a.Calm) ∧
        run M init pre = some { init with received := b, inbuf := b, eof := eof } := by
      cases eof with
      | false => exact ⟨[.arrive b], by simp [Action.Calm], rfl⟩
      | true => exact ⟨[.arrive b, .close], by simp [Action.Calm], rfl⟩
    obtain ⟨pre, hpre, harrive⟩ := harrive
    have hrun' : run M init (pre ++ as) = some s := Lts.run_append.2 ⟨_, harrive, hrun⟩
    have hc : ∀ a ∈ pre ++ as, a.Calm := fun a ha =>
      (List.mem_append.1 ha).elim (hpre a) fun ha => (hown a ha).calm
    obtain ⟨r, hr⟩ := hcalm hrun' hc
    obtain ⟨hframes, herror⟩ := hr.at_rest hrest
    rw [hkeeps.1] at hframes herror
    rw [hkeeps.2] at herror
    exact ⟨_, s, hrun', hc, hrest, hkeeps.1, hkeeps.2, hframes, herror⟩

end Sao.ReadExact
