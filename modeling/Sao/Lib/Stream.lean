import Sao.Lib.Bytes

/-!
# Self-delimiting codes on a byte stream

A `Code` is a reader together with the encoding it accepts: it succeeds exactly on streams that
begin with the encoding of a valid item, and leaves what follows. From this alone:

* `readN_encodeAll` — a sequence of items is read back, and the reader stands right behind it.
* `readAll_spec`, `readAll_unique` — reading until the first error splits a stream into the
  encodings of valid items and a remainder that begins with none, in the only way there is.
* `prefix_of_encodeAll` — the items read from a prefix of an encoded sequence are a prefix of it.
-/

namespace Stream

structure Code (α ε : Type) where
  Valid : α → Prop
  encode : α → Bytes
  read : Bytes → Except ε (α × Bytes)
  encode_ne_nil : ∀ a, encode a ≠ []
  read_ok_iff : ∀ {s a r}, read s = .ok (a, r) ↔ Valid a ∧ s = encode a ++ r

variable {α ε : Type} (C : Code α ε)

def encodeAll (as : List α) : Bytes := as.flatMap C.encode

/-- Read `n` items. -/
def readN : Nat → Bytes → Except ε (List α × Bytes)
  | 0, s => .ok ([], s)
  | n + 1, s =>
    match C.read s with
    | .error e => .error e
    | .ok (a, r) =>
      match readN n r with
      | .error e => .error e
      | .ok (as, r') => .ok (a :: as, r')

theorem read_length {C : Code α ε} {s : Bytes} {a : α} {r : Bytes} (h : C.read s = .ok (a, r)) :
    r.length < s.length := by
  obtain ⟨-, rfl⟩ := C.read_ok_iff.1 h
  have := List.length_pos_iff.2 (C.encode_ne_nil a)
  simp only [List.length_append]
  omega

/-- Read items until the first error: the items, the error, and the stream the failed read began at. -/
def readAll (s : Bytes) : List α × ε × Bytes :=
  match h : C.read s with
  | .error e => ([], e, s)
  | .ok (a, r) =>
    have := read_length h
    (a :: (readAll r).1, (readAll r).2)
termination_by s.length

@[simp] theorem encodeAll_nil : encodeAll C [] = [] := rfl

@[simp] theorem encodeAll_cons (a : α) (as : List α) : encodeAll C (a :: as) = C.encode a ++ encodeAll C as := rfl

@[simp] theorem encodeAll_append (as bs : List α) : encodeAll C (as ++ bs) = encodeAll C as ++ encodeAll C bs := by
  simp [encodeAll]

variable {C}

theorem read_encode {a : α} (ha : C.Valid a) (t : Bytes) : C.read (C.encode a ++ t) = .ok (a, t) :=
  C.read_ok_iff.2 ⟨ha, rfl⟩

/-- An encoding at the head of a stream is determined by the stream. -/
theorem encode_append_inj {a b : α} {r t : Bytes} (ha : C.Valid a) (hb : C.Valid b)
    (h : C.encode a ++ r = C.encode b ++ t) : a = b ∧ r = t := by
  have h1 := read_encode ha r
  rw [h, read_encode hb t] at h1
  simp only [Except.ok.injEq, Prod.mk.injEq] at h1
  exact ⟨h1.1.symm, h1.2.symm⟩

theorem encode_append_ne_nil (a : α) (t : Bytes) : C.encode a ++ t ≠ [] := by
  intro h
  exact C.encode_ne_nil a (List.append_eq_nil_iff.1 h).1

/-- **Round trip of a sequence**, with the reader left behind its last byte. -/
theorem readN_encodeAll {as : List α} (h : ∀ a ∈ as, C.Valid a) (t : Bytes) :
    readN C as.length (encodeAll C as ++ t) = .ok (as, t) := by
  induction as with
  | nil => rfl
  | cons a as ih =>
    have ha := h a List.mem_cons_self
    have ih := ih fun b hb => h b (List.mem_cons_of_mem _ hb)
    simp only [List.length_cons, readN, encodeAll_cons, List.append_assoc, read_encode ha, ih]

theorem readAll_error {s : Bytes} {e : ε} (h : C.read s = .error e) : readAll C s = ([], e, s) := by
  rw [readAll]
  split
  · rename_i e' h'
    rw [h] at h'
    cases h'
    rfl
  · rename_i a r h'
    rw [h] at h'
    cases h'

theorem readAll_ok {s : Bytes} {a : α} {r : Bytes} (h : C.read s = .ok (a, r)) :
    readAll C s = (a :: (readAll C r).1, (readAll C r).2) := by
  rw [readAll]
  split
  · rename_i e h'
    rw [h] at h'
    cases h'
  · rename_i a' r' h'
    rw [h] at h'
    cases h'
    rfl

/-- **Soundness**: what is read is valid, its encoding is what was consumed, and the rest does not read. -/
theorem readAll_spec (s : Bytes) :
    s = encodeAll C (readAll C s).1 ++ (readAll C s).2.2 ∧ (∀ a ∈ (readAll C s).1, C.Valid a) ∧
      C.read (readAll C s).2.2 = .error (readAll C s).2.1 := by
  induction hn : s.length using Nat.strongRecOn generalizing s with
  | _ n ih =>
  cases h : C.read s with
  | error e => rw [readAll_error h]; exact ⟨rfl, by simp, h⟩
  | ok p =>
    obtain ⟨a, r⟩ := p
    obtain ⟨ha, hs⟩ := C.read_ok_iff.1 h
    obtain ⟨h1, h2, h3⟩ := ih r.length (hn ▸ read_length h) r rfl
    rw [readAll_ok h]
    refine ⟨?_, ?_, h3⟩
    · simp only [encodeAll_cons, List.append_assoc]
      rw [← h1, ← hs]
    · intro b hb
      rcases List.mem_cons.1 hb with rfl | hb
      · exact ha
      · exact h2 b hb

/-- **Uniqueness**: a split into valid items and a remainder that does not read is the one `readAll` finds. -/
theorem readAll_unique {as : List α} {r : Bytes} {e : ε} (has : ∀ a ∈ as, C.Valid a)
    (hr : C.read r = .error e) : readAll C (encodeAll C as ++ r) = (as, e, r) := by
  induction as with
  | nil => exact readAll_error hr
  | cons a as ih =>
    have ih := ih fun b hb => has b (List.mem_cons_of_mem _ hb)
    have h1 : C.read (encodeAll C (a :: as) ++ r) = .ok (a, encodeAll C as ++ r) := by
      rw [encodeAll_cons, List.append_assoc]
      exact read_encode (has a List.mem_cons_self) _
    rw [readAll_ok h1, ih]

/-- Items in front are read first. -/
theorem readAll_append {as : List α} (has : ∀ a ∈ as, C.Valid a) (s : Bytes) :
    readAll C (encodeAll C as ++ s) = (as ++ (readAll C s).1, (readAll C s).2) := by
  obtain ⟨hs, hvalid, he⟩ := readAll_spec (C := C) s
  have hall : ∀ a ∈ as ++ (readAll C s).1, C.Valid a := fun a ha => (List.mem_append.1 ha).elim (has a) (hvalid a)
  have hstream : encodeAll C as ++ s = encodeAll C (as ++ (readAll C s).1) ++ (readAll C s).2.2 := by
    rw [encodeAll_append, List.append_assoc, ← hs]
  rw [hstream, readAll_unique hall he]

/-- Two splits of one stream agree as far as both have items. -/
theorem encodeAll_append_eq {as bs : List α} {r t : Bytes} (has : ∀ a ∈ as, C.Valid a)
    (hbs : ∀ b ∈ bs, C.Valid b) (h : encodeAll C as ++ r = encodeAll C bs ++ t) :
    (∃ cs, bs = as ++ cs ∧ r = encodeAll C cs ++ t) ∨ (∃ cs, as = bs ++ cs ∧ t = encodeAll C cs ++ r) := by
  induction as generalizing bs with
  | nil => exact Or.inl ⟨bs, rfl, h⟩
  | cons a as ih =>
    cases bs with
    | nil => exact Or.inr ⟨a :: as, rfl, h.symm⟩
    | cons b bs =>
      simp only [encodeAll_cons, List.append_assoc] at h
      obtain ⟨rfl, h'⟩ := encode_append_inj (has a List.mem_cons_self) (hbs b List.mem_cons_self) h
      rcases ih (fun x hx => has x (List.mem_cons_of_mem _ hx))
        (fun x hx => hbs x (List.mem_cons_of_mem _ hx)) h' with ⟨cs, rfl, hr⟩ | ⟨cs, rfl, ht⟩
      · exact Or.inl ⟨cs, rfl, hr⟩
      · exact Or.inr ⟨cs, rfl, ht⟩

theorem encodeAll_injective {as bs : List α} (has : ∀ a ∈ as, C.Valid a) (hbs : ∀ b ∈ bs, C.Valid b)
    (h : encodeAll C as = encodeAll C bs) : as = bs := by
  have h' : encodeAll C as ++ [] = encodeAll C bs ++ [] := by simpa using h
  have key : ∀ cs : List α, [] = encodeAll C cs ++ [] → cs = [] := by
    intro cs hcs
    cases cs with
    | nil => rfl
    | cons c cs =>
      rw [encodeAll_cons, List.append_assoc] at hcs
      exact absurd hcs.symm (encode_append_ne_nil c _)
  rcases encodeAll_append_eq has hbs h' with ⟨cs, rfl, hr⟩ | ⟨cs, rfl, ht⟩
  · simp [key cs hr]
  · simp [key cs ht]

/-- **Prefixes**: items split off a prefix of an encoded sequence are its first ones, and the
remainder of the prefix is a prefix of the encoding of the others. -/
theorem prefix_of_encodeAll {as bs : List α} {r : Bytes} (has : ∀ a ∈ as, C.Valid a)
    (hbs : ∀ b ∈ bs, C.Valid b) (h : encodeAll C as ++ r <+: encodeAll C bs) :
    ∃ cs, bs = as ++ cs ∧ r <+: encodeAll C cs := by
  obtain ⟨t, ht⟩ := h
  rw [List.append_assoc] at ht
  rcases encodeAll_append_eq has hbs (ht.trans (List.append_nil _).symm) with ⟨cs, rfl, hr⟩ | ⟨cs, rfl, hn⟩
  · exact ⟨cs, rfl, t, by simpa using hr⟩
  · cases cs with
    | nil => exact ⟨[], by simp, t, by simpa using hn.symm⟩
    | cons c cs =>
      rw [encodeAll_cons, List.append_assoc] at hn
      exact absurd hn.symm (encode_append_ne_nil c _)

end Stream
