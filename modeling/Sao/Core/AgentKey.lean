import Sao.Core.Auth
import Sao.Lib.Prog

/-!
# `agent_key.rs`: the key files of a client

| here | there |
| --- | --- |
| `Op`                              | what the functions do to the two files; `draw` is `SigningKey::generate` |
| `writeAgentPublicKeyFile`         | `write_agent_public_key_file` |
| `keyOfLines`                      | the loop over the lines of the private file |
| `loadOrCreateSigningKey`          | `load_or_create_signing_key` |

* `call_create`, `call_reload` — a key that was created is the one that is loaded, and both calls write
  the same `.pub` file.
* `loadAuthorizedKeys_listed` — a file of blank lines, comments and keys that holds the `.pub` file
  loads with its key.
* `findKey_listed` — a loaded key is found by its fingerprint.
* `load_publicBody`, `findKey_agentEntry` — the same of a file that is nothing but the `.pub` file.
-/

namespace Sao.AgentKey

open Text Prog

def FILE_HEADER : Str := "sao-ed25519-private-v1".toList

/-- `# Append this line to the server's authorized_keys file.` -/
def PUB_COMMENT : Str := "# Append this line to the server's authorized_keys file.".toList

inductive Op where
  /-- `path.exists()` -/
  | pathExists
  /-- `std::fs::read_to_string(path)` -/
  | readToString
  /-- `std::fs::create_dir_all` of the directory of both files. -/
  | createDirAll
  | draw
  /-- `std::fs::write(path, body)` -/
  | write (body : Str)
  /-- `std::fs::write(&pub_path, body)` -/
  | writePub (body : Str)
deriving DecidableEq

abbrev Op.Reply : Op → Type
  | .pathExists => Bool
  | .readToString => Except Str Str
  | .createDirAll => Except Str Unit
  | .draw => ByteArr 32
  | .write _ => Except Str Unit
  | .writePub _ => Except Str Unit

abbrev Interact := Prog Op Op.Reply CoreError

def readToString : Interact Str := perform .readToString fun r => r.mapError .io

def createDirAll : Interact Unit := perform .createDirAll fun r => r.mapError .io

def write (body : Str) : Interact Unit := perform (.write body) fun r => r.mapError .io

def writePub (body : Str) : Interact Unit := perform (.writePub body) fun r => r.mapError .io

def publicLine (pk : ByteArr 32) : Str := KEY_TYPE_ED25519 ++ ' ' :: (Base64.encode pk.1 ++ " agent".toList)

def publicBody (pk : ByteArr 32) : Str := PUB_COMMENT ++ '\n' :: (publicLine pk ++ ['\n'])

def privateBody (sk : ByteArr 32) : Str := FILE_HEADER ++ '\n' :: (Base64.encode sk.1 ++ ['\n'])

variable (X : Ext)

def writeAgentPublicKeyFile (key : ByteArr 32) : Interact Unit := do
  createDirAll
  writePub (publicBody (X.verifyingKey key))

/-- The first line that is neither the header nor blank nor a comment holds the key. -/
def keyOfLines : List Str → Except CoreError (ByteArr 32)
  | [] => .error (.ed25519 "no key material in file".toList)
  | line :: ls =>
    if trim line = FILE_HEADER ∨ trim line = [] ∨ (trim line).head? = some '#' then keyOfLines ls
    else match X.base64Decode (trim line) with
      | .error e => .error (.ed25519 e)
      | .ok raw =>
        if hlen : raw.length = 32 then .ok ⟨raw, hlen⟩
        else .error (.ed25519 "private key must be 32 bytes".toList)

def loadOrCreateSigningKey : Interact (ByteArr 32) := do
  let found ← perform .pathExists .ok
  let key ← if found then do
      let s ← readToString
      .ret (keyOfLines X (lines s))
    else do
      createDirAll
      let key ← perform .draw .ok
      write (privateBody key)
      pure key
  writeAgentPublicKeyFile X key
  pure key

/-- What both ways of coming by a key end in, in any model of the files: the `.pub` file is written beside them. -/
theorem writePub_keeps {X : Ext} {σ : Type} {env : Event Op.Reply → σ → Option σ} {G : σ → Event Op.Reply → Prop}
    {J : σ → Prop} {Q : Except CoreError (ByteArr 32) → σ → Prop} {s : σ} {key : ByteArr 32} (hJ : J s)
    (hdir : ∀ r s', G s ⟨.createDirAll, r⟩ → env ⟨.createDirAll, r⟩ s = some s' →
      s' = s ∧ ∀ e, r = .error e → Q (.error (.io e)) s)
    (hpub : ∀ r s', G s ⟨.writePub (publicBody (X.verifyingKey key)), r⟩ →
      env ⟨.writePub (publicBody (X.verifyingKey key)), r⟩ s = some s' →
        J s' ∧ Q ((r.mapError .io).map fun _ => key) s') :
    Keeps env G J Q (do writeAgentPublicKeyFile X key; pure key) s := by
  refine keeps_bind (keeps_bind (keeps_perform hJ fun r s' hG hs => ?_))
  obtain ⟨rfl, hfail⟩ := hdir r s' hG hs
  refine ⟨hJ, ?_⟩
  cases r with
  | error e => exact hfail e rfl
  | ok u =>
    refine keeps_perform hJ fun r s' hG hs => ?_
    obtain ⟨hJ', hQ⟩ := hpub r s' hG hs
    refine ⟨hJ', ?_⟩
    cases r with
    | error e => exact hQ
    | ok u' => exact keeps_ret hJ' hQ

/-! ## Against the file system -/

/-- The two files, where they exist. -/
structure KeyFiles where
  privateKey : Option Str
  publicKey : Option Str
deriving DecidableEq, Repr

/-- A file system that can be written, and a random source that yields `drawn`. -/
def serve (drawn : ByteArr 32) : (op : Op) → KeyFiles → KeyFiles × op.Reply
  | .pathExists, files => (files, files.privateKey.isSome)
  | .readToString, files =>
    (files, match files.privateKey with
      | some s => .ok s
      | none => .error "No such file or directory (os error 2)".toList)
  | .createDirAll, files => (files, .ok ())
  | .draw, files => (files, drawn)
  | .write body, files => ({ files with privateKey := some body }, .ok ())
  | .writePub body, files => ({ files with publicKey := some body }, .ok ())

/-- One call of `load_or_create_signing_key`: the files it leaves and what it returns. -/
def call (drawn : ByteArr 32) (files : KeyFiles) : KeyFiles × Except CoreError (ByteArr 32) :=
  (loadOrCreateSigningKey X).exec (serve drawn) files

/-! ## Characters of the bodies -/

theorem not_isWhitespace_of_base64 {c : Char} (h : Base64.IsBase64Char c) : isWhitespace c = false := by
  have key : Base64.alphabet.all (fun c => !isWhitespace c) = true := by decide +kernel
  rcases h with h | rfl
  · simpa using List.all_eq_true.1 key c h
  · rfl

theorem base64_noWhitespace (b : Bytes) : ∀ c ∈ Base64.encode b, isWhitespace c = false :=
  fun _ hc => not_isWhitespace_of_base64 (Base64.mem_encode hc)

theorem base64_notMem {c : Char} (h : ¬ Base64.IsBase64Char c) (b : Bytes) : c ∉ Base64.encode b :=
  fun hc => h (Base64.mem_encode hc)

theorem encode_ne_nil (k : ByteArr 32) : Base64.encode k.1 ≠ [] := by
  intro h
  have := Base64.length_encode k.1
  rw [h, k.2] at this
  cases this

/-- A text of base64 is neither the header nor blank nor a comment. -/
theorem base64_isKeyLine (k : ByteArr 32) :
    ¬ (Base64.encode k.1 = FILE_HEADER ∨ Base64.encode k.1 = [] ∨ (Base64.encode k.1).head? = some '#') := by
  rintro (h | h | h)
  · -- the header has a hyphen
    have : '-' ∈ Base64.encode k.1 := by
      rw [h]
      decide
    exact base64_notMem (by unfold Base64.IsBase64Char; decide) _ this
  · exact encode_ne_nil k h
  · exact base64_notMem (by unfold Base64.IsBase64Char; decide) _ (List.mem_of_mem_head? h)

/-! ## Creating and reloading -/

theorem lines_privateBody (sk : ByteArr 32) : lines (privateBody sk) = [FILE_HEADER, Base64.encode sk.1] := by
  have hn : '\n' ∉ Base64.encode sk.1 := fun h => absurd (base64_noWhitespace _ _ h) (by decide)
  have hr : (Base64.encode sk.1).getLast? ≠ some '\r' := fun h =>
    absurd (base64_noWhitespace _ _ (List.mem_of_getLast? h)) (by decide)
  rw [privateBody, lines_cons (by decide) (by decide), lines_cons hn hr]
  rfl

variable {X}

/-- **A written key is read back.** -/
theorem keyOfLines_privateBody (hX : X.Lawful) (sk : ByteArr 32) :
    keyOfLines X (lines (privateBody sk)) = .ok sk := by
  have htrim : trim (Base64.encode sk.1) = Base64.encode sk.1 := trim_of_noWhitespace (base64_noWhitespace _)
  rw [lines_privateBody, keyOfLines, if_pos (Or.inl (by decide)), keyOfLines, htrim, if_neg (base64_isKeyLine sk),
    hX.base64]
  exact dif_pos sk.2

/-- The first call creates both files. -/
theorem call_create (drawn : ByteArr 32) (pub : Option Str) : call X drawn ⟨none, pub⟩ =
    (⟨some (privateBody drawn), some (publicBody (X.verifyingKey drawn))⟩, .ok drawn) := rfl

/-- A call that finds a private file leaves it alone, and writes the `.pub` file if it holds a key. -/
theorem call_found (drawn : ByteArr 32) (s : Str) (pub : Option Str) : call X drawn ⟨some s, pub⟩ =
    match keyOfLines X (lines s) with
    | .ok key => (⟨some s, some (publicBody (X.verifyingKey key))⟩, .ok key)
    | .error e => (⟨some s, pub⟩, .error e) := by
  have hfound : call X drawn ⟨some s, pub⟩ = Prog.exec (serve drawn)
      ((.ret (keyOfLines X (lines s)) : Interact (ByteArr 32)) >>= fun key => do
        writeAgentPublicKeyFile X key
        pure key) ⟨some s, pub⟩ := rfl
  rw [hfound, exec_bind]
  cases keyOfLines X (lines s) with
  | error e => rfl
  | ok key => rfl

/-- **A later call returns the same key**, whatever has become of the `.pub` file, and writes that again. -/
theorem call_reload (hX : X.Lawful) (sk drawn : ByteArr 32) (pub : Option Str) :
    call X drawn ⟨some (privateBody sk), pub⟩ =
      (⟨some (privateBody sk), some (publicBody (X.verifyingKey sk))⟩, .ok sk) := by
  rw [call_found, keyOfLines_privateBody hX]

/-! ## The `.pub` file as a part of the server's key file -/

/-- A line `load_authorized_keys` accepts: blank, a comment, or the key `key?`. -/
inductive KeyFileLine (X : Ext) (line : Str) : Option (ByteArr 32) → Prop where
  | skipped (h : trim line = [] ∨ (trim line).head? = some '#') : KeyFileLine X line none
  | key {b64 : Str} {rest : List Str} {pk : ByteArr 32} (hhead : (trim line).head? ≠ some '#')
      (hwords : splitWhitespace (trim line) = KEY_TYPE_ED25519 :: b64 :: rest)
      (hdec : X.base64Decode b64 = .ok pk.1) (hpk : X.verifyingKeyFromBytes pk = .ok ()) :
      KeyFileLine X line (some pk)

theorem authorizedKeyOfBlob_key {lineno : Nat} {keyType comment : Str} {pk : ByteArr 32}
    (hpk : X.verifyingKeyFromBytes pk = .ok ()) : ∃ k : AuthorizedKey X,
      authorizedKeyOfBlob X lineno keyType pk.1 comment = .ok k ∧ k.verifyingKey.bytes = pk := by
  unfold authorizedKeyOfBlob
  rw [dif_pos pk.2]
  split
  · rename_i e he
    rw [hpk] at he
    cases he
  · exact ⟨_, rfl, rfl⟩

theorem KeyFileLine.load {line : Str} {pk? : Option (ByteArr 32)} (h : KeyFileLine X line pk?) (lineno : Nat) :
    ∃ k? : Option (AuthorizedKey X), authorizedKeyLine X lineno line = .ok k? ∧
      k?.map (·.verifyingKey.bytes) = pk? := by
  unfold authorizedKeyLine
  cases h with
  | skipped h => exact ⟨none, if_pos h, rfl⟩
  | @key b64 rest pk hhead hwords hdec hpk =>
    have hne : trim line ≠ [] := by
      intro h0
      rw [h0] at hwords
      cases hwords
    obtain ⟨k, hk, hb⟩ : ∃ k : AuthorizedKey X,
        authorizedKeyOfBlob X lineno KEY_TYPE_ED25519 pk.1 (List.intercalate [' '] rest) = .ok k ∧
          k.verifyingKey.bytes = pk := authorizedKeyOfBlob_key hpk
    refine ⟨some k, ?_, congrArg some hb⟩
    rw [if_neg (by rintro (h0 | h0); exacts [hne h0, hhead h0]), hwords]
    simp only [hdec, hk, ne_eq, not_true_eq_false, if_false]
    rfl

/-- **Such a file loads**, line by line. -/
theorem authorizedKeyLines_ok {ls : List Str} (h : ∀ l ∈ ls, ∃ pk?, KeyFileLine X l pk?) (lineno : Nat) :
    ∃ ks : List (AuthorizedKey X), authorizedKeyLines X lineno ls = .ok ks ∧
      ∀ l ∈ ls, ∀ pk, KeyFileLine X l (some pk) → ∃ k ∈ ks, k.verifyingKey.bytes = pk := by
  induction ls generalizing lineno with
  | nil => exact ⟨[], rfl, fun l hl => (by cases hl)⟩
  | cons l ls ih =>
    obtain ⟨pk?, hl⟩ := h l List.mem_cons_self
    obtain ⟨k?, hk?, -⟩ := hl.load lineno
    obtain ⟨ks, hks, hall⟩ := ih (fun l' hl' => h l' (List.mem_cons_of_mem _ hl')) (lineno + 1)
    refine ⟨k?.toList ++ ks, by rw [authorizedKeyLines, hk?, hks], fun l' hl' pk hpk => ?_⟩
    rcases List.mem_cons.1 hl' with rfl | hl'
    · obtain ⟨k'?, hk'?, hb⟩ := hpk.load lineno
      rw [hk?] at hk'?
      cases hk'?
      obtain ⟨k, hk, hpk⟩ := Option.map_eq_some_iff.1 hb
      exact ⟨k, by simp [hk], hpk⟩
    · obtain ⟨k, hk, hb⟩ := hall l' hl' pk hpk
      exact ⟨k, List.mem_append_right _ hk, hb⟩

theorem publicLine_noNewline (pk : ByteArr 32) : '\n' ∉ publicLine pk := by
  intro h
  simp only [publicLine, List.mem_append, List.mem_cons] at h
  rcases h with h | h | h | h
  · exact absurd h (by decide)
  · exact absurd h (by decide)
  · exact absurd (base64_noWhitespace _ _ h) (by decide)
  · exact absurd h (by decide)

theorem head?_publicLine (pk : ByteArr 32) : (publicLine pk).head? = some 's' := by
  rw [publicLine, List.head?_append]
  rfl

theorem getLast?_publicLine (pk : ByteArr 32) : (publicLine pk).getLast? = some 't' := by
  rw [publicLine, List.getLast?_append_of_ne_nil _ (by simp), List.getLast?_cons_of_ne_nil (by simp),
    List.getLast?_append_of_ne_nil _ (by decide)]
  rfl

theorem lines_publicBody (pk : ByteArr 32) : lines (publicBody pk) = [PUB_COMMENT, publicLine pk] := by
  rw [publicBody, lines_cons (by decide) (by decide), lines_cons (publicLine_noNewline pk)]
  · rfl
  · rw [getLast?_publicLine]
    decide

theorem trim_publicLine (pk : ByteArr 32) : trim (publicLine pk) = publicLine pk := by
  apply trimMatches_eq_self
  · intro c hc
    rw [head?_publicLine, Option.some.injEq] at hc
    rw [← hc]
    rfl
  · intro c hc
    rw [getLast?_publicLine, Option.some.injEq] at hc
    rw [← hc]
    rfl

theorem splitWhitespace_publicLine (pk : ByteArr 32) :
    splitWhitespace (publicLine pk) = [KEY_TYPE_ED25519, Base64.encode pk.1, "agent".toList] := by
  have hkt : ∀ c ∈ KEY_TYPE_ED25519, isWhitespace c = false := noWhitespace_of_all (by decide)
  rw [publicLine, splitWhitespace_cons (by decide) hkt]
  show _ :: splitWhitespace (Base64.encode pk.1 ++ ' ' :: "agent".toList) = _
  rw [splitWhitespace_cons (encode_ne_nil pk) (base64_noWhitespace _),
    splitWhitespace_single (by decide) (noWhitespace_of_all (by decide))]

/-- The line of the `.pub` file holds the key. -/
theorem keyFileLine_publicLine (hX : X.Lawful) {pk : ByteArr 32} (hpk : X.verifyingKeyFromBytes pk = .ok ()) :
    KeyFileLine X (publicLine pk) (some pk) := by
  have hhead : (trim (publicLine pk)).head? ≠ some '#' := by
    rw [trim_publicLine, head?_publicLine]
    decide
  exact .key hhead (by rw [trim_publicLine, splitWhitespace_publicLine]) (hX.base64 _) hpk

theorem keyFileLine_comment : KeyFileLine X PUB_COMMENT none := .skipped (Or.inr (by decide))

/-- **A listed key is found** by its fingerprint, as far as SHA-256 tells the keys apart. -/
theorem findKey_listed (hl : Lowercase X.toLowercase) {keys : List (AuthorizedKey X)} {pk : ByteArr 32}
    (hmem : ∃ k ∈ keys, k.verifyingKey.bytes = pk)
    (hsha : ∀ k ∈ keys, X.sha256 k.verifyingKey.bytes.1 = X.sha256 pk.1 → k.verifyingKey.bytes = pk) :
    ∃ entry, findKey X keys (ed25519FingerprintHex X pk) = some entry ∧ entry.verifyingKey.bytes = pk := by
  have hfp : X.toLowercase (trim (ed25519FingerprintHex X pk)) = ed25519FingerprintHex X pk := by
    rw [ed25519FingerprintHex, trim_of_noWhitespace fun c hc => not_isWhitespace_of_hex (mem_hexEncode hc),
      hl.hex fun c hc => mem_hexEncode hc]
  cases hfind : findKey X keys (ed25519FingerprintHex X pk) with
  | none =>
    obtain ⟨k, hk, hb⟩ := hmem
    have := List.find?_eq_none.1 hfind k hk
    rw [decide_eq_true_eq, k.fingerprint_eq, hb, hfp] at this
    exact absurd rfl this
  | some entry =>
    obtain ⟨hk, hb⟩ := findKey_some hfind
    rw [hfp] at hb
    exact ⟨entry, rfl, hsha entry hk (Subtype.ext (hexEncode_injective hb))⟩

/-- The key file of a server to which the `.pub` file was added, between any other such lines. -/
theorem loadAuthorizedKeys_listed (hX : X.Lawful) {pk : ByteArr 32} (hpk : X.verifyingKeyFromBytes pk = .ok ())
    {text : Str} {pre post : List Str} (htext : lines text = pre ++ lines (publicBody pk) ++ post)
    (hother : ∀ l ∈ pre ++ post, ∃ pk?, KeyFileLine X l pk?) :
    ∃ keys, loadAuthorizedKeys X (.ok text) = .ok keys ∧ ∃ k ∈ keys, k.verifyingKey.bytes = pk := by
  rw [lines_publicBody] at htext
  have hall : ∀ l ∈ lines text, ∃ pk?, KeyFileLine X l pk? := by
    intro l hl
    simp only [htext, List.mem_append, List.mem_cons, List.not_mem_nil, or_false] at hl
    rcases hl with (hl | rfl | rfl) | hl
    · exact hother l (List.mem_append_left _ hl)
    · exact ⟨none, keyFileLine_comment⟩
    · exact ⟨some pk, keyFileLine_publicLine hX hpk⟩
    · exact hother l (List.mem_append_right _ hl)
  obtain ⟨keys, hkeys, hlisted⟩ := authorizedKeyLines_ok hall 0
  obtain ⟨k, hk, hb⟩ := hlisted (publicLine pk) (by simp [htext]) pk (keyFileLine_publicLine hX hpk)
  refine ⟨keys, ?_, k, hk, hb⟩
  unfold loadAuthorizedKeys
  cases keys with
  | nil => cases hk
  | cons k keys => simp only [hkeys]

/-! ## The `.pub` file alone -/

section Alone

variable {pk : ByteArr 32} (hpk : X.verifyingKeyFromBytes pk = .ok ())

/-- The key of a `.pub` file, as a server holds it. -/
def agentEntry : AuthorizedKey X where
  keyType := KEY_TYPE_ED25519
  verifyingKey := ⟨pk, hpk⟩
  fingerprintHex := ed25519FingerprintHex X pk
  comment := "agent".toList
  fingerprint_eq := rfl

theorem authorizedKeyLine_publicLine (hX : X.Lawful) (lineno : Nat) :
    authorizedKeyLine X lineno (publicLine pk) = .ok (some (agentEntry hpk)) := by
  have hblob : authorizedKeyOfBlob X lineno KEY_TYPE_ED25519 pk.1 "agent".toList = .ok (agentEntry hpk) := by
    unfold authorizedKeyOfBlob
    rw [dif_pos pk.2]
    split
    · rename_i e he
      rw [hpk] at he
      cases he
    · rfl
  have hne : publicLine pk ≠ [] := by
    intro h
    have := head?_publicLine pk
    rw [h] at this
    cases this
  unfold authorizedKeyLine
  rw [trim_publicLine, if_neg (by rintro (h | h); exacts [hne h, by rw [head?_publicLine] at h; cases h]),
    splitWhitespace_publicLine]
  simp only [hX.base64, ne_eq, not_true_eq_false, if_false]
  exact congrArg (Except.map some) hblob

theorem load_publicBody (hX : X.Lawful) :
    loadAuthorizedKeys X (.ok (publicBody pk)) = .ok [agentEntry hpk] := by
  have hcomment : authorizedKeyLine X 0 PUB_COMMENT = .ok none := if_pos (Or.inr (by decide))
  unfold loadAuthorizedKeys
  simp only [lines_publicBody, authorizedKeyLines, hcomment, authorizedKeyLine_publicLine hpk hX 1,
    Option.toList_some, Option.toList_none, List.append_nil, List.nil_append]

theorem findKey_agentEntry (hl : Lowercase X.toLowercase) :
    findKey X [agentEntry hpk] (ed25519FingerprintHex X pk) = some (agentEntry hpk) := by
  have hlisted : ∃ k ∈ [agentEntry hpk], k.verifyingKey.bytes = pk := ⟨_, List.mem_singleton_self _, rfl⟩
  have honly : ∀ k ∈ [agentEntry hpk], k.verifyingKey.bytes = pk := fun k hk => by rw [List.mem_singleton.1 hk]; rfl
  obtain ⟨entry, hfind, -⟩ := findKey_listed hl hlisted fun k hk _ => honly k hk
  rw [hfind, List.mem_singleton.1 (findKey_some hfind).1]

end Alone

end Sao.AgentKey
