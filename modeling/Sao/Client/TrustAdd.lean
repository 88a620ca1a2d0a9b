import Sao.Core.KnownHostsFile
import Sao.Core.Reference
import Sao.Client.Pin

/-!
# `sao trust add` as an update of a map

A sequence of `sao trust add` commands, each run against the file the one before it left.

* `saveText_congr` — a map has one file, in whatever order a `HashMap` iterates over it: `keyLe` is
  a total order and a key has one pin.
* `trustAdd_map` — after every prefix of a sequence the file loads, as the map in which the last
  accepted command wins; refused commands leave the file alone; and the map determines the file.
-/

namespace Sao.Client

open Text KnownHosts

/-! ## One file for one map -/

theorem keyLe_eq : keyLe = fun a b => (compareLex (compareOn fun k : HostPort => Bytes.utf8 k.1)
    (compareOn fun k : HostPort => k.2) a b).isLE := rfl

theorem keyLe_trans (a b c : HostPort) (hab : keyLe a b = true) (hbc : keyLe b c = true) : keyLe a c = true := by
  rw [keyLe_eq] at *
  exact Std.TransCmp.isLE_trans hab hbc

theorem keyLe_total (a b : HostPort) : (keyLe a b || keyLe b a) = true := by
  rw [keyLe_eq, Bool.or_eq_true]
  by_cases h : (compareLex (compareOn fun k : HostPort => Bytes.utf8 k.1)
      (compareOn fun k : HostPort => k.2) a b).isLE = true
  · exact Or.inl h
  · right
    simp only [Std.OrientedCmp.lt_of_not_isLE h]
    rfl

/-- Keys that compare equal are equal: a host is determined by its bytes. -/
theorem keyLe_antisymm {a b : HostPort} (hab : keyLe a b = true) (hba : keyLe b a = true) : a = b := by
  rw [keyLe_eq] at *
  have h := Std.OrientedCmp.isLE_antisymm hab hba
  simp only [compareLex, compareOn, Ordering.then_eq_eq] at h
  exact Prod.ext (Bytes.utf8_injective (Std.LawfulEqCmp.eq_of_compare h.1)) (Std.LawfulEqCmp.eq_of_compare h.2)

theorem sortedKeys_congr {k k' : KnownHosts} (h : ∀ key, k.lookup key = k'.lookup key) :
    k.sortedKeys = k'.sortedKeys := by
  have hperm : k.pins.keys.Perm k'.pins.keys := by
    rw [List.perm_ext_iff_of_nodup k.pins.keys_nodup k'.pins.keys_nodup]
    intro key
    rw [mem_keys_iff, mem_keys_iff, h]
  refine List.Perm.eq_of_pairwise (fun a b _ _ => keyLe_antisymm) (List.pairwise_mergeSort keyLe_trans keyLe_total _)
    (List.pairwise_mergeSort keyLe_trans keyLe_total _) ?_
  exact (List.mergeSort_perm _ _).trans (hperm.trans (List.mergeSort_perm _ _).symm)

/-- **The file is canonical.** -/
theorem saveText_congr {k k' : KnownHosts} (h : ∀ key, k.lookup key = k'.lookup key) : k.saveText = k'.saveText := by
  unfold saveText savedEntries
  rw [sortedKeys_congr h, funext h]

/-! ## Commands against the file -/

variable (X : Ext)

/-- What an operation replies where the pin file is `file` and can be written; the rest of the
world answers as `oracle` says. -/
def replyOn (oracle : (op : Op) → op.Reply) (file : Option Str) : (op : Op) → op.Reply
  | .load => KnownHosts.load X.toLowercase file
  | .save _ => .ok ()
  | op => oracle op

def fileOn (file : Option Str) : Op → Option Str
  | .save kh => some kh.saveText
  | _ => file

/-- A command of the client that is run to its end, and the pin file it leaves. -/
def onFile (oracle : (op : Op) → op.Reply) {α : Type} : Interact α → Option Str → Option Str × Except Stop α
  | .ret r, file => (file, r)
  | .call op k, file => onFile oracle (k (replyOn X oracle file op)) (fileOn file op)

/-- The arguments of one `sao trust add`. -/
structure TrustAdd where
  host : Str
  port : UInt16
  fingerprintHex : Str

def TrustAdd.key (c : TrustAdd) : HostPort := (normalizeHost X.toLowercase c.host, c.port)

/-- The fingerprint of an accepted command. -/
def TrustAdd.accepted (c : TrustAdd) : Option Pin := (parseHex32 X.toLowercase c.fingerprintHex).toOption

def TrustAdd.onFile (oracle : (op : Op) → op.Reply) (file : Option Str) (c : TrustAdd) : Option Str :=
  (Client.onFile X oracle (trustAdd X c.host c.port c.fingerprintHex) file).1

/-- The file behind a sequence of commands, from an absent one. -/
def fileAfter (oracle : (op : Op) → op.Reply) (cs : List TrustAdd) : Option Str :=
  cs.foldl (TrustAdd.onFile X oracle) none

/-- The fingerprint of the last accepted command for a key. -/
def lastAccepted (cs : List TrustAdd) (key : HostPort) : Option Pin :=
  cs.reverse.findSome? fun c => if key = c.key X then c.accepted X else none

variable {X} {oracle : (op : Op) → op.Reply}

theorem onFile_eq {α : Type} (p : Interact α) (file : Option Str) : onFile X oracle p file =
    p.exec (fun op file => (fileOn file op, replyOn X oracle file op)) file := by
  induction p generalizing file with
  | ret r => rfl
  | call op k ih => exact ih _ _

theorem onFile_bind {α β : Type} (p : Interact α) (f : α → Interact β) (file : Option Str) :
    onFile X oracle (p >>= f) file = match onFile X oracle p file with
      | (file', .ok a) => onFile X oracle (f a) file'
      | (file', .error e) => (file', .error e) := by
  rw [onFile_eq, onFile_eq, Prog.exec_bind]
  cases Prog.exec (fun op file => (fileOn file op, replyOn X oracle file op)) p file with
  | mk file' r =>
    cases r with
    | error e => rfl
    | ok a => exact (onFile_eq (f a) file').symm

/-- A command loads, inserts and saves; where it stops early it leaves the file alone. -/
theorem trustAdd_onFile (c : TrustAdd) (file : Option Str) : c.onFile X oracle file =
    match KnownHosts.load X.toLowercase file, c.accepted X with
    | .ok kh, some fp => some (kh.insert (c.key X) fp).saveText
    | _, _ => file := by
  unfold TrustAdd.onFile TrustAdd.accepted TrustAdd.key trustAdd
  have hload : onFile X oracle Client.load file = (file, (KnownHosts.load X.toLowercase file).mapError Stop.ofFault) :=
    rfl
  rw [onFile_bind, hload]
  cases KnownHosts.load X.toLowercase file with
  | error e => rfl
  | ok kh =>
    simp only [Except.mapError]
    rw [onFile_bind, onFile, insertHex]
    cases parseHex32 X.toLowercase c.fingerprintHex with
    | error e => rfl
    | ok fp => rfl

theorem fileAfter_snoc (cs : List TrustAdd) (c : TrustAdd) :
    fileAfter X oracle (cs ++ [c]) = c.onFile X oracle (fileAfter X oracle cs) := by
  unfold fileAfter
  rw [List.foldl_append]
  rfl

theorem lastAccepted_snoc (cs : List TrustAdd) (c : TrustAdd) (key : HostPort) : lastAccepted X (cs ++ [c]) key =
    (if key = c.key X then c.accepted X else none).or (lastAccepted X cs key) := by
  simp only [lastAccepted, List.reverse_append, List.reverse_cons, List.reverse_nil, List.nil_append,
    List.cons_append, List.findSome?_cons]
  cases (if key = c.key X then c.accepted X else none) <;> rfl

/-! ## Sequences -/

/-- The file holds a map: it is absent and the map is empty, or `save` has written a store that is
the map, over hosts that `load` reads back. -/
def Holds (X : Ext) (file : Option Str) (m : HostPort → Option Pin) : Prop :=
  (file = none ∧ ∀ key, m key = none) ∨
  ∃ k, Reachable X.toLowercase k ∧ (∀ key fp, k.lookup key = some fp → Plain key.1) ∧ file = some k.saveText ∧
    (∀ key, k.lookup key = m key) ∧ ∃ key, m key ≠ none

section Holds

variable (hl : Lowercase X.toLowercase) {file file' : Option Str} {m : HostPort → Option Pin}

include hl

theorem Holds.load (h : Holds X file m) : ∃ k, KnownHosts.load X.toLowercase file = .ok k ∧
    (∀ key, k.lookup key = m key) ∧ ∀ key fp, k.lookup key = some fp → Plain key.1 := by
  rcases h with ⟨rfl, hm⟩ | ⟨k, hr, hp, rfl, hm, -⟩
  · refine ⟨default, rfl, fun key => by rw [lookup_default, hm], fun key fp h => ?_⟩
    rw [lookup_default] at h
    cases h
  · obtain ⟨k', hload, heq⟩ := roundTrips_of_plain hl hr hp
    exact ⟨k', hload, fun key => (heq key).trans (hm key), fun key fp h => hp key fp (by rw [← heq, h])⟩

/-- One accepted command. -/
theorem Holds.insert (h : Holds X file m) {c : TrustAdd} (hc : Plain (c.key X).1) {fp : Pin}
    (hfp : c.accepted X = some fp) :
    Holds X (c.onFile X oracle file) (fun key => if key = c.key X then some fp else m key) := by
  obtain ⟨k, hload, hm, hp⟩ := h.load hl
  have hparse : parseHex32 X.toLowercase c.fingerprintHex = .ok fp := by
    unfold TrustAdd.accepted at hfp
    cases hres : parseHex32 X.toLowercase c.fingerprintHex with
    | error e => rw [hres] at hfp; cases hfp
    | ok fp' => rw [hres] at hfp; cases hfp; rfl
  have hins : KnownHosts.insertHex X.toLowercase k c.host c.port c.fingerprintHex = .ok (k.insert (c.key X) fp) := by
    rw [KnownHosts.insertHex, hparse]
    rfl
  rw [trustAdd_onFile, hload, hfp]
  refine Or.inr ⟨k.insert (c.key X) fp, .insertHex (.load hload) hins, ?_, rfl, ?_, c.key X, by simp⟩
  · intro key fp' hk
    rw [lookup_insert] at hk
    split at hk
    · rename_i he; rw [he]; exact hc
    · exact hp key fp' hk
  · intro key
    rw [lookup_insert, hm]

omit hl in
/-- A refused command. -/
theorem onFile_refused {c : TrustAdd} (h : c.accepted X = none) : c.onFile X oracle file = file := by
  rw [trustAdd_onFile, h]
  cases KnownHosts.load X.toLowercase file <;> rfl

theorem holds_fileAfter {cs : List TrustAdd} (hcs : ∀ c ∈ cs, Plain (c.key X).1) :
    Holds X (fileAfter X oracle cs) (lastAccepted X cs) := by
  induction cs using List.reverseRecOn with
  | nil => exact Or.inl ⟨rfl, fun key => rfl⟩
  | append_singleton cs c ih =>
    have ih := ih fun d hd => hcs d (List.mem_append_left _ hd)
    rw [fileAfter_snoc]
    have hsnoc : lastAccepted X (cs ++ [c]) =
        fun key => (if key = c.key X then c.accepted X else none).or (lastAccepted X cs key) :=
      funext (lastAccepted_snoc cs c)
    rw [hsnoc]
    cases hfp : c.accepted X with
    | none =>
      rw [onFile_refused hfp]
      simpa using ih
    | some fp =>
      have h : Holds X (c.onFile X oracle (fileAfter X oracle cs)) _ := ih.insert hl (hcs c (by simp)) hfp
      have heq : (fun key => (if key = c.key X then some fp else none).or (lastAccepted X cs key)) =
          fun key => if key = c.key X then some fp else lastAccepted X cs key := by
        funext key
        split <;> rfl
      rw [heq]
      exact h

omit hl in
/-- Two files that hold one map are equal. -/
theorem Holds.unique (h : Holds X file m) (h' : Holds X file' m) : file = file' := by
  rcases h with ⟨rfl, hm⟩ | ⟨k, -, -, rfl, hm, hne⟩
  · rcases h' with ⟨rfl, -⟩ | ⟨k', -, -, -, -, key, hne⟩
    · rfl
    · exact absurd (hm key) hne
  · rcases h' with ⟨-, hm'⟩ | ⟨k', -, -, rfl, hm', -⟩
    · obtain ⟨key, hne⟩ := hne
      exact absurd (hm' key) hne
    · rw [saveText_congr fun key => (hm key).trans (hm' key).symm]

end Holds

/-- **`trust add` is an update of a map, through the file.** For commands whose normalized hosts are
plain tokens, after every prefix: the file loads, and `pin_hex` finds for any spelling of a host the
fingerprint of the last accepted command for it, or reports that there is none; a refused command
leaves the file as it is; a sequence that makes the same map leaves the same file, and so does
every other order of iteration over that map. -/
theorem trustAdd_map (hl : Lowercase X.toLowercase) (oracle : (op : Op) → op.Reply) {cs : List TrustAdd}
    (hcs : ∀ c ∈ cs, Plain (normalizeHost X.toLowercase c.host)) :
    (∀ n, ∃ k, KnownHosts.load X.toLowercase (fileAfter X oracle (cs.take n)) = .ok k ∧
      ∀ host port, k.pinHex X.toLowercase host port =
        match lastAccepted X (cs.take n) (normalizeHost X.toLowercase host, port) with
        | some fp => .ok fp
        | none => .error (.knownHostsMissing
            (normalizeHost X.toLowercase host ++ ":".toList ++ decimal port.toNat))) ∧
    (∀ n c, cs[n]? = some c → c.accepted X = none →
      fileAfter X oracle (cs.take (n + 1)) = fileAfter X oracle (cs.take n)) ∧
    (∀ cs' : List TrustAdd, (∀ c ∈ cs', Plain (normalizeHost X.toLowercase c.host)) →
      (∀ key, lastAccepted X cs key = lastAccepted X cs' key) →
      fileAfter X oracle cs = fileAfter X oracle cs') ∧
    ∀ k k' : KnownHosts, (∀ key, k.lookup key = k'.lookup key) → k.saveText = k'.saveText := by
  refine ⟨fun n => ?_, fun n c hn hc => ?_, fun cs' hcs' heq => ?_, fun k k' => saveText_congr⟩
  · obtain ⟨k, hload, hm, -⟩ :=
      (show Holds X (fileAfter X oracle _) _ from
        holds_fileAfter hl fun c hc => hcs c (List.mem_of_mem_take hc)).load hl
    refine ⟨k, hload, fun host port => ?_⟩
    cases hlast : lastAccepted X (cs.take n) (normalizeHost X.toLowercase host, port) <;>
      simp only [pinHex, hm, hlast]
  · have hlt : n < cs.length := (List.getElem?_eq_some_iff.1 hn).1
    have hget : cs[n] = c := (List.getElem?_eq_some_iff.1 hn).2
    rw [List.take_succ_eq_append_getElem hlt, fileAfter_snoc, hget, onFile_refused hc]
  · have h : Holds X (fileAfter X oracle cs) (lastAccepted X cs) := holds_fileAfter hl hcs
    rw [funext heq] at h
    exact h.unique (holds_fileAfter hl hcs')

/-- A world in which nobody is at the terminal and no host answers. -/
def unattended : (op : Op) → op.Reply
  | .load => .ok .default
  | .save _ => .ok ()
  | .connect _ _ => .error "Connection refused (os error 111)".toList
  | .isTerminal => false
  | .eprint _ => .ok ()
  | .flush => .ok ()
  | .readLine => .ok []

/-- One host under three spellings: a pin, another in its place, and one that is refused. -/
def spellings : List TrustAdd :=
  [⟨"Example.COM".toList, 443, List.replicate 64 'a'⟩, ⟨"[example.com]".toList, 443, List.replicate 64 'B'⟩,
    ⟨"EXAMPLE.com".toList, 443, "bb:bb".toList⟩]

/-- The second pin is found under every spelling, and the third command leaves the file as it is. -/
theorem trustAdd_map_spelling :
    (∃ k : KnownHosts, KnownHosts.load Text.asciiLower (fileAfter Ext.sample unattended spellings) = .ok k ∧
      ∀ host, normalizeHost asciiLower host = "example.com".toList →
        k.pinHex Text.asciiLower host 443 = .ok ⟨List.replicate 32 0xBB, rfl⟩) ∧
    fileAfter Ext.sample unattended spellings = fileAfter Ext.sample unattended (spellings.take 2) := by
  have hcs : ∀ c ∈ spellings, Plain (normalizeHost Ext.sample.toLowercase c.host) := by
    have hall : ∀ c ∈ spellings, Plain (normalizeHost asciiLower c.host) := by decide
    exact hall
  obtain ⟨hloads, hrefused, -⟩ := trustAdd_map (X := Ext.sample) lowercase_asciiLower unattended hcs
  obtain ⟨k, hload, hpin⟩ := hloads 3
  have hlast : lastAccepted Ext.sample spellings ("example.com".toList, 443) =
      some ⟨List.replicate 32 0xBB, rfl⟩ := by decide
  refine ⟨⟨k, hload, fun host hhost => (hpin host 443).trans ?_⟩, hrefused 2 _ rfl (by decide)⟩
  rw [show normalizeHost Ext.sample.toLowercase host = "example.com".toList from hhost]
  exact hlast ▸ rfl

end Sao.Client
