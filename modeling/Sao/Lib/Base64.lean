import Sao.Lib.Bytes

/-!
# Base64, standard alphabet with padding

* `decode_encode` — decoding an encoding gives the bytes back.
* `length_encode` — four characters for each three bytes begun.
* `length_decode` — no other number of characters is decoded to as many bytes.
* `mem_encode` — an encoding consists of ASCII characters that JSON prints verbatim.
-/

namespace Base64

def alphabet : Str := "ABCDEFGHIJKLMNOPQRSTUVWXYZabcdefghijklmnopqrstuvwxyz0123456789+/".toList

/-- The character for six bits. -/
def encodeSextet (n : Nat) : Char := alphabet.getD n '='

/-- The six bits of a character. -/
def decodeSextet (c : Char) : Option Nat :=
  if c ∈ alphabet then some (alphabet.idxOf c) else none

def encode : Bytes → Str
  | [] => []
  | [a] => [encodeSextet (a.toNat / 4), encodeSextet (a.toNat % 4 * 16), '=', '=']
  | [a, b] => [encodeSextet (a.toNat / 4), encodeSextet (a.toNat % 4 * 16 + b.toNat / 16),
      encodeSextet (b.toNat % 16 * 4), '=']
  | a :: b :: c :: r => encodeSextet (a.toNat / 4) :: encodeSextet (a.toNat % 4 * 16 + b.toNat / 16) ::
      encodeSextet (b.toNat % 16 * 4 + c.toNat / 64) :: encodeSextet (c.toNat % 64) :: encode r

/-- The bytes of a full quantum. -/
def decodeQuantum (a b c d : Nat) : Bytes :=
  [UInt8.ofNat (a * 4 + b / 16), UInt8.ofNat (b % 16 * 16 + c / 4), UInt8.ofNat (c % 4 * 64 + d)]

/-- Canonical encodings only: padding is required, stands at the end, and the bits it cuts off are zero. -/
def decode : Str → Option Bytes
  | [] => some []
  | [a, b, '=', '='] => do
    let a ← decodeSextet a
    let b ← decodeSextet b
    if b % 16 = 0 then some [UInt8.ofNat (a * 4 + b / 16)] else none
  | [a, b, c, '='] => do
    let a ← decodeSextet a
    let b ← decodeSextet b
    let c ← decodeSextet c
    if c % 4 = 0 then some [UInt8.ofNat (a * 4 + b / 16), UInt8.ofNat (b % 16 * 16 + c / 4)] else none
  | a :: b :: c :: d :: r => do
    let a ← decodeSextet a
    let b ← decodeSextet b
    let c ← decodeSextet c
    let d ← decodeSextet d
    let r ← decode r
    some (decodeQuantum a b c d ++ r)
  | _ => none

theorem decodeSextet_encodeSextet {n : Nat} (h : n < 64) : decodeSextet (encodeSextet n) = some n := by
  have key : ∀ n : Fin 64, decodeSextet (encodeSextet n) = some n.1 := by decide +kernel
  exact key ⟨n, h⟩

theorem encodeSextet_ne_pad {n : Nat} (h : n < 64) : encodeSextet n ≠ '=' := by
  have key : ∀ n : Fin 64, encodeSextet n ≠ '=' := by decide +kernel
  exact key ⟨n, h⟩

/-- Three bytes and their four sextets. -/
theorem decodeQuantum_encode (a b c : UInt8) :
    decodeQuantum (a.toNat / 4) (a.toNat % 4 * 16 + b.toNat / 16) (b.toNat % 16 * 4 + c.toNat / 64) (c.toNat % 64) =
      [a, b, c] := by
  have ha := a.toNat_lt
  have hb := b.toNat_lt
  have hc := c.toNat_lt
  simp only [decodeQuantum, List.cons.injEq, and_true]
  refine ⟨?_, ?_, ?_⟩ <;> apply UInt8.toNat_inj.1 <;> rw [UInt8.toNat_ofNat'] <;> omega

/-- A quantum without padding is decoded on its own. -/
theorem decode_quantum {a b c d : Char} {r : Str} (hd : d ≠ '=') {w x y z : Nat}
    (ha : decodeSextet a = some w) (hb : decodeSextet b = some x) (hc : decodeSextet c = some y)
    (hz : decodeSextet d = some z) :
    decode (a :: b :: c :: d :: r) = (decode r).map (decodeQuantum w x y z ++ ·) := by
  rw [decode.eq_def]
  split
  · rename_i h; cases h
  · rename_i h; cases h; exact absurd rfl hd
  · rename_i h; cases h; exact absurd rfl hd
  · rename_i h
    cases h
    simp only [ha, hb, hc, hz, Option.bind_eq_bind, Option.bind_some]
    cases decode r <;> rfl
  · rename_i h; exact absurd rfl (h a b c d r)

/-- **Round trip.** -/
theorem decode_encode (b : Bytes) : decode (encode b) = some b := by
  induction b using encode.induct with
  | case1 => rfl
  | case2 a =>
    have ha := a.toNat_lt
    have h1 := decodeSextet_encodeSextet (n := a.toNat / 4) (by omega)
    have h2 := decodeSextet_encodeSextet (n := a.toNat % 4 * 16) (by omega)
    have he : UInt8.ofNat (a.toNat / 4 * 4 + a.toNat % 4 * 16 / 16) = a := by
      apply UInt8.toNat_inj.1
      rw [UInt8.toNat_ofNat']
      omega
    simp only [encode, decode, h1, h2, Option.bind_eq_bind, Option.bind_some, he]
    rw [if_pos (by omega)]
  | case3 a b =>
    have ha := a.toNat_lt
    have hb := b.toNat_lt
    have h1 := decodeSextet_encodeSextet (n := a.toNat / 4) (by omega)
    have h2 := decodeSextet_encodeSextet (n := a.toNat % 4 * 16 + b.toNat / 16) (by omega)
    have h3 := decodeSextet_encodeSextet (n := b.toNat % 16 * 4) (by omega)
    have hne : encodeSextet (b.toNat % 16 * 4) ≠ '=' := encodeSextet_ne_pad (by omega)
    have hea : UInt8.ofNat (a.toNat / 4 * 4 + (a.toNat % 4 * 16 + b.toNat / 16) / 16) = a := by
      apply UInt8.toNat_inj.1
      rw [UInt8.toNat_ofNat']
      omega
    have heb : UInt8.ofNat ((a.toNat % 4 * 16 + b.toNat / 16) % 16 * 16 + b.toNat % 16 * 4 / 4) = b := by
      apply UInt8.toNat_inj.1
      rw [UInt8.toNat_ofNat']
      omega
    rw [encode, decode]
    · simp only [h1, h2, h3, Option.bind_eq_bind, Option.bind_some, hea, heb]
      rw [if_pos (by omega)]
    · intro h
      exact absurd h hne
  | case4 a b c r ih =>
    have ha := a.toNat_lt
    have hb := b.toNat_lt
    have hc := c.toNat_lt
    rw [encode, decode_quantum (encodeSextet_ne_pad (by omega)) (decodeSextet_encodeSextet (by omega))
      (decodeSextet_encodeSextet (by omega)) (decodeSextet_encodeSextet (by omega))
      (decodeSextet_encodeSextet (by omega)), ih, decodeQuantum_encode]
    rfl

theorem length_encode (b : Bytes) : (encode b).length = (b.length + 2) / 3 * 4 := by
  induction b using encode.induct with
  | case1 => rfl
  | case2 a => simp [encode]
  | case3 a b => simp [encode]
  | case4 a b c r ih =>
    simp only [encode, List.length_cons, ih]
    omega

theorem length_decode {s : Str} {b : Bytes} (h : decode s = some b) : s.length = (b.length + 2) / 3 * 4 := by
  induction s using decode.induct generalizing b with
  | case1 =>
    cases h
    rfl
  | case2 a c =>
    simp only [decode, Option.bind_eq_bind, Option.bind_eq_some_iff] at h
    obtain ⟨x, -, y, -, h⟩ := h
    split at h
    · cases h
      simp
    · cases h
  | case3 a c d hd =>
    rw [decode] at h
    · simp only [Option.bind_eq_bind, Option.bind_eq_some_iff] at h
      obtain ⟨x, -, y, -, z, -, h⟩ := h
      split at h
      · cases h
        simp
      · cases h
    · exact hd
  | case4 a c d e r h1 h2 ih =>
    rw [decode] at h
    · simp only [Option.bind_eq_bind, Option.bind_eq_some_iff] at h
      obtain ⟨w, -, x, -, y, -, z, -, t, ht, h⟩ := h
      cases h
      simp only [List.length_cons, List.length_append, List.length_nil, decodeQuantum, ih ht]
      omega
    · exact h1
    · exact h2
  | case5 s h1 h2 h3 h4 =>
    rw [decode] at h
    · cases h
    all_goals assumption

/-- Letters, digits, `+`, `/` and `=`. -/
def IsBase64Char (c : Char) : Prop := c ∈ alphabet ∨ c = '='

theorem encodeSextet_isBase64Char (n : Nat) : IsBase64Char (encodeSextet n) := by
  unfold encodeSextet
  rcases Nat.lt_or_ge n alphabet.length with h | h
  · rw [List.getD_eq_getElem?_getD, List.getElem?_eq_getElem h]
    exact Or.inl (List.getElem_mem h)
  · rw [List.getD_eq_getElem?_getD, List.getElem?_eq_none h]
    exact Or.inr rfl

theorem mem_encode {b : Bytes} {c : Char} (h : c ∈ encode b) : IsBase64Char c := by
  induction b using encode.induct with
  | case1 => simp [encode] at h
  | case2 a =>
    simp only [encode, List.mem_cons, List.not_mem_nil, or_false] at h
    rcases h with rfl | rfl | rfl | rfl
    · exact encodeSextet_isBase64Char _
    · exact encodeSextet_isBase64Char _
    · exact Or.inr rfl
    · exact Or.inr rfl
  | case3 a b =>
    simp only [encode, List.mem_cons, List.not_mem_nil, or_false] at h
    rcases h with rfl | rfl | rfl | rfl
    · exact encodeSextet_isBase64Char _
    · exact encodeSextet_isBase64Char _
    · exact encodeSextet_isBase64Char _
    · exact Or.inr rfl
  | case4 a b c' r ih =>
    simp only [encode, List.mem_cons] at h
    rcases h with rfl | rfl | rfl | rfl | h
    · exact encodeSextet_isBase64Char _
    · exact encodeSextet_isBase64Char _
    · exact encodeSextet_isBase64Char _
    · exact encodeSextet_isBase64Char _
    · exact ih h

end Base64
