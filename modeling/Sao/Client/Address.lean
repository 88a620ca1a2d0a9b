import Sao.Client.PinSafety

/-!
# `parse_addr`: the address of `sao trust-probe`

`trust-probe` takes the host and the port in one text, `run` and `trust add` as two arguments. The
client prints them as `{host}:{port}`, which for an IPv6 host is ambiguous unless it is bracketed.

* `parseAddr_eq_ok` — the accepted texts: `[host]:port` and `host:port`.
* `parseAddr_language` — and what the client prints names the same entry of `known_hosts`, in whichever
  of the two forms it is read.
-/

namespace Text

theorem colon_notMem_of_parseU16 {s : Str} {p : UInt16} (h : parseU16 s = some p) : ':' ∉ s := by
  obtain ⟨v, hv, -⟩ := Option.map_eq_some_iff.1 h
  intro hmem
  rcases fromStrRadix_digits hv ':' hmem with hc | hc
  · exact absurd hc (by decide)
  · exact hc (by decide)

theorem colon_notMem_decimal (n : Nat) : ':' ∉ decimal n := by
  intro hmem
  have := decimal_digit hmem
  exact absurd this.2 (by decide)

/-- Two texts that are cut at their last colon. -/
theorem append_colon_inj {a a' b b' : Str} (hb : ':' ∉ b) (hb' : ':' ∉ b') (h : a ++ ':' :: b = a' ++ ':' :: b') :
    a = a' ∧ b = b' := by
  have hsplit := rsplitOnce_eq_some.2 ⟨h.symm, hb⟩
  rw [rsplitOnce_eq_some.2 ⟨rfl, hb'⟩, Option.some.injEq, Prod.mk.injEq] at hsplit
  exact ⟨hsplit.1.symm, hsplit.2.symm⟩

end Text

namespace Sao.Client

open Text KnownHosts

def parseAddr (s : Str) : Except Str (Str × UInt16) :=
  let s := trim s
  if s.head? = some '[' then
    match splitFirst "]:".toList s with
    | none => .error "expected [ipv6]:port".toList
    | some (start, port) =>
      match parseU16 port with
      | none => .error "bad port".toList
      | some port => .ok (start.drop 1, port)
  else
    match rsplitOnce ':' s with
    | none => .error "expected host:port".toList
    | some (host, port) =>
      if host = [] then .error "empty host".toList
      else match parseU16 port with
        | none => .error "bad port".toList
        | some port => .ok (host, port)

/-! ## The accepted texts -/

/-- A host and a port in one text. The first `]:` ends a bracketed host, the last colon a bare one. -/
inductive Address : Str → Str → UInt16 → Prop where
  | bracketed {host digits : Str} {port : UInt16} : ¬ "]:".toList <:+: host → parseU16 digits = some port →
      Address ('[' :: host ++ "]:".toList ++ digits) host port
  | bare {host digits : Str} {port : UInt16} : host ≠ [] → host.head? ≠ some '[' → parseU16 digits = some port →
      Address (host ++ ':' :: digits) host port

/-- The first `]:` behind an opening bracket. -/
theorem splitFirst_bracketed {host : Str} (h : ¬ "]:".toList <:+: host) (r : Str) :
    splitFirst "]:".toList ('[' :: host ++ "]:".toList ++ r) = some ('[' :: host, r) := by
  have hpat : "]:".toList = [']', ':'] := rfl
  rw [hpat] at h ⊢
  refine splitFirst_append (List.cons_ne_nil _ _) (fun p c t hsplit r hp => h ?_) r
  obtain ⟨u, hu⟩ := hp
  cases p with
  | nil =>
    -- it would begin with the bracket itself
    rw [List.nil_append] at hsplit
    cases hsplit
    cases hu
  | cons b p =>
    rw [List.cons_append, List.cons.injEq] at hsplit
    cases t with
    | nil => cases hu
    | cons d t =>
      cases hu
      exact ⟨p, t, by rw [hsplit.2]; simp⟩

theorem splitFirst_bracketed_inv {s start r : Str} (hs : s.head? = some '[')
    (h : splitFirst "]:".toList s = some (start, r)) :
    ∃ host, start = '[' :: host ∧ s = '[' :: host ++ "]:".toList ++ r ∧ ¬ "]:".toList <:+: host := by
  obtain ⟨rfl, hfirst⟩ := splitFirst_some h
  cases start with
  | nil => cases hs
  | cons c host =>
    obtain rfl : c = '[' := Option.some.inj hs
    refine ⟨host, rfl, rfl, ?_⟩
    rintro ⟨u, v, rfl⟩
    exact hfirst ('[' :: u) ']' (':' :: v) (by simp) ⟨v ++ "]:".toList ++ r, by simp⟩

/-- **The language of `parse_addr`.** -/
theorem parseAddr_eq_ok {s host : Str} {port : UInt16} :
    parseAddr s = .ok (host, port) ↔ Address (trim s) host port := by
  unfold parseAddr
  simp only
  generalize trim s = t
  constructor
  · intro h
    split at h
    · rename_i hhead
      split at h
      · cases h
      · rename_i start digits hsplit
        split at h
        · cases h
        · rename_i p hp
          cases h
          obtain ⟨host, rfl, rfl, hno⟩ := splitFirst_bracketed_inv hhead hsplit
          exact .bracketed hno hp
    · rename_i hhead
      split at h
      · cases h
      · rename_i host' digits hsplit
        obtain ⟨rfl, -⟩ := rsplitOnce_eq_some.1 hsplit
        split at h
        · cases h
        · rename_i hne
          split at h
          · cases h
          · rename_i p hp
            cases h
            refine .bare hne (fun hb => hhead ?_) hp
            rw [List.head?_append_of_ne_nil _ hne, hb]
  · rintro (⟨hno, hp⟩ | ⟨hne, hb, hp⟩)
    · rename_i digits
      have hhead : ('[' :: host ++ "]:".toList ++ digits).head? = some '[' := rfl
      rw [if_pos hhead, splitFirst_bracketed hno]
      simp only [hp, List.drop_succ_cons, List.drop_zero]
    · rw [if_neg (by rwa [List.head?_append_of_ne_nil _ hne]), rsplitOnce_eq_some.2 ⟨rfl, colon_notMem_of_parseU16 hp⟩]
      simp only [if_neg hne, hp]

/-! ## What the client prints -/

variable {X : Ext} {host : Str} {port : UInt16}

theorem hostPort_eq (host : Str) (port : UInt16) : hostPort host port = host ++ ':' :: decimal port.toNat :=
  List.append_assoc _ _ _

theorem trim_hostPort (hws : ∀ c, host.head? = some c → isWhitespace c = false) :
    trim (hostPort host port) = hostPort host port := by
  rw [hostPort_eq]
  refine trimMatches_eq_self (fun c hc => ?_) fun c hc => ?_
  · cases host with
    | nil =>
      obtain rfl : ':' = c := Option.some.inj hc
      decide
    | cons d host => exact hws c hc
  · rw [List.getLast?_append_of_ne_nil _ (List.cons_ne_nil _ _),
      List.getLast?_cons_of_ne_nil (show decimal port.toNat ≠ [] from Nat.toDigits_ne_nil)] at hc
    exact not_isWhitespace_of_decimal (List.mem_of_getLast? hc)

/-- The brackets of a host do not count. -/
theorem normalizeHost_bracketed (lower : Str → Str) (h : Str) :
    normalizeHost lower ('[' :: h ++ [']']) = normalizeHost lower h := by
  have htrim : trimMatches isBracket ('[' :: h ++ [']']) = trimMatches isBracket h := by
    unfold trimMatches
    rw [List.cons_append, List.dropWhile_cons_of_pos (by decide), List.dropWhile_append]
    split
    · rename_i hnil
      rw [List.isEmpty_iff.1 hnil]
      rfl
    · exact List.rdropWhile_concat_pos _ _ _ (by decide)
  rw [normalizeHost_eq, normalizeHost_eq, htrim]

/-- Either form of `{host}:{port}` names the entry of the host and the port. -/
theorem address_hostPort {h : Str} {p : UInt16} (ha : Address (hostPort host port) h p) :
    p = port ∧ pinKey X h p = pinKey X host port := by
  rw [hostPort_eq] at ha
  generalize hs : host ++ ':' :: decimal port.toNat = s at ha
  have hd := colon_notMem_decimal port.toNat
  cases ha with
  | @bracketed _ digits _ hno hp =>
    have hcut : ('[' :: h ++ [']']) ++ ':' :: digits = host ++ ':' :: decimal port.toNat := by
      rw [hs]
      simp
    obtain ⟨hhost, rfl⟩ := append_colon_inj (colon_notMem_of_parseU16 hp) hd hcut
    rw [parseU16_decimal, Option.some.injEq] at hp
    rw [← hp, pinKey, pinKey, ← hhost, normalizeHost_bracketed]
    exact ⟨rfl, rfl⟩
  | @bare _ digits _ hne hb hp =>
    obtain ⟨rfl, rfl⟩ := append_colon_inj (colon_notMem_of_parseU16 hp) hd hs.symm
    rw [parseU16_decimal, Option.some.injEq] at hp
    rw [hp]
    exact ⟨rfl, rfl⟩

/-- **`parse_addr`.** It accepts exactly `[host]:port` and `host:port` with a port of 16 bits, up to whitespace
around them. Every nonempty host that begins neither with a bracket nor with whitespace is read back from what the
client prints of it; and whatever printed address of a host without leading whitespace is accepted, it names the entry
of `known_hosts` for the host and the port that were printed, although an IPv6 host loses its brackets. -/
theorem parseAddr_language (X : Ext) :
    (∀ s host port, parseAddr s = .ok (host, port) ↔ Address (trim s) host port) ∧
    (∀ host port, host ≠ [] → host.head? ≠ some '[' → (∀ c, host.head? = some c → isWhitespace c = false) →
      parseAddr (hostPort host port) = .ok (host, port)) ∧
    ∀ host port, (∀ c, host.head? = some c → isWhitespace c = false) →
      ∀ h p, parseAddr (hostPort host port) = .ok (h, p) → p = port ∧ pinKey X h p = pinKey X host port := by
  refine ⟨fun s host port => parseAddr_eq_ok, fun host port hne hb hws => ?_, fun host port hws h p hparse => ?_⟩
  · rw [parseAddr_eq_ok, trim_hostPort hws, hostPort_eq]
    exact .bare hne hb (parseU16_decimal port)
  · rw [parseAddr_eq_ok, trim_hostPort hws] at hparse
    exact address_hostPort hparse

/-- An IPv6 address that is printed in its brackets, and read back without them. -/
theorem parseAddr_language_ipv6 : pinKey Ext.sample "::1".toList 8443 = pinKey Ext.sample "[::1]".toList 8443 := by
  have hws : ∀ c, "[::1]".toList.head? = some c → isWhitespace c = false := by
    intro c hc
    obtain rfl : '[' = c := Option.some.inj hc
    decide
  have hparse : parseAddr (hostPort "[::1]".toList 8443) = .ok ("::1".toList, 8443) := by decide
  exact ((parseAddr_language Ext.sample).2.2 _ _ hws _ _ hparse).2

/-- Without its brackets, the last group of an IPv6 address is the port. -/
example : parseAddr "::1".toList = .ok (":".toList, 1) ∧
    parseAddr " [::1]:8443".toList = .ok ("::1".toList, 8443) ∧
    parseAddr "[::1]".toList = .error "expected [ipv6]:port".toList := by
  decide

end Sao.Client
