import Goca.Laws.Addresses
import Goca.Web.ClientAddress

/-!
# The address of a client behind proxies

A proxy appends the address it was asked from behind what the client wrote. So the address to take
is the rightmost one, over all the header lines, that is none of a trusted proxy (`Unforged`).
`clientIP` walks from the right, but over the first header line only: what the client wrote is taken
for its address as soon as a proxy put its hop on a line of its own.

An entry is a proxy's where it gives an address of one of the trusted networks, by itself, with a
port, or in brackets with a port (`isTrustedProxy_iff`). An address in brackets alone is none.
-/

set_option autoImplicit false

namespace Goca.Web

open Go (IP IPNet)

/-! ## Hosts and ports -/

/-- No bracket stands in a text. -/
def Unbracketed (s : String) : Prop := '[' ∉ s.toList ∧ ']' ∉ s.toList

theorem lastColon_append {a p : List Char} (hp : ':' ∉ p) :
    ((a ++ ':' :: p).reverse.takeWhile (· != ':')).reverse = p := by
  have hstop : (':' :: a.reverse).takeWhile (· != ':') = [] := rfl
  rw [List.reverse_append, List.reverse_cons, List.append_assoc, List.singleton_append,
    List.takeWhile_append_of_pos, hstop, List.append_nil, List.reverse_reverse]
  intro c hc
  have hne : c ≠ ':' := fun h => hp (h ▸ List.mem_reverse.mp hc)
  simpa using hne

/-- The conditions of `SplitHostPort`, around the last colon. -/
theorem splitHostPort_append {a p : List Char} (hp : ':' ∉ p) :
    Go.splitHostPort (.ofList (a ++ ':' :: p)) =
      if (a ++ ':' :: p).head? = some '[' then
        if ((a ++ ':' :: p).takeWhile (· != ']')).length + 1 = a.length ∧
            '[' ∉ ((a ++ ':' :: p).takeWhile (· != ']')).drop 1 ∧ '[' ∉ p ∧ ']' ∉ p then
          some (.ofList (((a ++ ':' :: p).takeWhile (· != ']')).drop 1), .ofList p)
        else none
      else if ':' ∉ a ∧ '[' ∉ a ++ ':' :: p ∧ ']' ∉ a ++ ':' :: p then
        some (.ofList a, .ofList p)
      else none := by
  have hcolon : (a ++ ':' :: p).contains ':' = true := by simp
  have hi : (a ++ ':' :: p).length - p.length - 1 = a.length := by
    rw [List.length_append, List.length_cons]
    omega
  unfold Go.splitHostPort
  simp only [String.toList_ofList, lastColon_append hp, hcolon, hi, Bool.true_eq_false, if_false,
    List.take_left', List.contains_eq_mem, decide_eq_false_iff_not]

theorem exists_lastColon {s : List Char} (h : ':' ∈ s) : ∃ a p, s = a ++ ':' :: p ∧ ':' ∉ p := by
  obtain ⟨p, a, hsplit, hp⟩ := List.eq_append_cons_of_mem (List.mem_reverse.mpr h)
  refine ⟨a.reverse, p.reverse, ?_, fun hc => hp (List.mem_reverse.mp hc)⟩
  rw [← List.reverse_reverse s, hsplit]
  simp


/-- What stands before a delimiter is what is taken up to it. -/
theorem takeWhile_bracket {t rest : List Char} (h : ']' ∉ t) :
    (t ++ ']' :: rest).takeWhile (· != ']') = t := by
  have hstop : (']' :: rest).takeWhile (· != ']') = [] := rfl
  rw [List.takeWhile_append_of_pos, hstop, List.append_nil]
  intro c hc
  have hne : c ≠ ']' := fun heq => h (heq ▸ hc)
  simpa using hne

theorem splitHostPort_plain {host port : String} (hcolon : ':' ∉ host.toList)
    (hhost : Unbracketed host) (hp : ':' ∉ port.toList) (hport : Unbracketed port) :
    Go.splitHostPort (host ++ ":" ++ port) = some (host, port) := by
  have htext : host ++ ":" ++ port = .ofList (host.toList ++ ':' :: port.toList) := by
    rw [← String.toList_inj]
    simp
  have hopen : '[' ∉ host.toList ++ ':' :: port.toList := by
    simpa using ⟨hhost.1, hport.1⟩
  have hclose : ']' ∉ host.toList ++ ':' :: port.toList := by
    simpa using ⟨hhost.2, hport.2⟩
  have hhead : (host.toList ++ ':' :: port.toList).head? ≠ some '[' :=
    fun h => hopen (List.mem_of_mem_head? h)
  rw [htext, splitHostPort_append hp, if_neg hhead, if_pos ⟨hcolon, hopen, hclose⟩,
    String.ofList_toList, String.ofList_toList]

theorem splitHostPort_bracketed {host port : String} (hhost : Unbracketed host)
    (hp : ':' ∉ port.toList) (hport : Unbracketed port) :
    Go.splitHostPort ("[" ++ host ++ "]:" ++ port) = some (host, port) := by
  have htext : "[" ++ host ++ "]:" ++ port =
      .ofList (('[' :: host.toList ++ [']']) ++ ':' :: port.toList) := by
    rw [← String.toList_inj]
    simp
  have hinner : (('[' :: host.toList ++ [']']) ++ ':' :: port.toList).takeWhile (· != ']') =
      '[' :: host.toList := by
    rw [List.append_assoc]
    exact takeWhile_bracket (by simpa using hhost.2)
  have hhead : (('[' :: host.toList ++ [']']) ++ ':' :: port.toList).head? = some '[' := rfl
  rw [htext, splitHostPort_append hp, if_pos hhead, hinner, if_pos ⟨by simp, hhost.1, hport⟩]
  simp

/-- **What `SplitHostPort` splits**: a host without a colon, or one in brackets, before a port. -/
theorem splitHostPort_inv {s host port : String}
    (h : Go.splitHostPort s = some (host, port)) : ':' ∉ port.toList ∧ Unbracketed port ∧
      (s = host ++ ":" ++ port ∧ ':' ∉ host.toList ∨ s = "[" ++ host ++ "]:" ++ port) := by
  by_cases hmem : ':' ∈ s.toList
  · obtain ⟨a, p, hsplit, hp⟩ := exists_lastColon hmem
    obtain rfl : s = .ofList (a ++ ':' :: p) := by rw [← hsplit, String.ofList_toList]
    rw [splitHostPort_append hp] at h
    split at h
    · next hhead =>
      split at h
      · next hcond =>
        obtain ⟨hlength, _, hport⟩ := hcond
        cases h
        refine ⟨by rwa [String.toList_ofList], by rwa [Unbracketed, String.toList_ofList], .inr ?_⟩
        -- Behind what is taken stands the bracket, and then the colon.
        have hdrop := List.takeWhile_append_dropWhile (p := (· != ']')) (l := a ++ ':' :: p)
        generalize hi : (a ++ ':' :: p).takeWhile (· != ']') = inner at hlength hdrop ⊢
        cases hrest : (a ++ ':' :: p).dropWhile (· != ']') with
        | nil =>
          rw [hrest, List.append_nil] at hdrop
          rw [hdrop, List.length_append, List.length_cons] at hlength
          omega
        | cons c rest =>
          obtain rfl : c = ']' := by
            have := List.head?_dropWhile_not (· != ']') (a ++ ':' :: p)
            rw [hrest] at this
            simpa using this
          rw [hrest, List.append_cons] at hdrop
          obtain ⟨ha, hb⟩ := List.append_inj hdrop (by simpa using hlength)
          have hopen : inner = '[' :: inner.drop 1 := by
            cases inner with
            | nil =>
              rw [List.nil_append] at hdrop
              rw [← hdrop] at hhead
              cases hhead
            | cons d inner =>
              rw [← hdrop] at hhead
              cases hhead
              rfl
          rw [← String.toList_inj, ← ha, hopen]
          simp
      · cases h
    · split at h
      · next hcond =>
        obtain ⟨hcolon, hopen, hclose⟩ := hcond
        cases h
        refine ⟨by rwa [String.toList_ofList], ⟨?_, ?_⟩, .inl ⟨?_, by rwa [String.toList_ofList]⟩⟩
        · simp at hopen ⊢
          exact hopen.2
        · simp at hclose ⊢
          exact hclose.2
        · rw [← String.toList_inj]
          simp
      · cases h
  · unfold Go.splitHostPort at h
    rw [if_pos (by simpa using hmem)] at h
    cases h

/-! ## Entries -/

/-- The runes of an address are no brackets. -/
theorem unbracketed_of_parseIP {t : String} {ip : IP} (h : Go.parseIP t = some ip) :
    Unbracketed t := by
  constructor
  · intro hc
    exact absurd (Pki.rune_of_parseIP h hc) (by decide)
  · intro hc
    exact absurd (Pki.rune_of_parseIP h hc) (by decide)

/-- An address by itself has no port. -/
theorem splitHostPort_address {t : String} {ip : IP} (h : Go.parseIP t = some ip) :
    Go.splitHostPort t = none := by
  cases hsplit : Go.splitHostPort t with
  | none => rfl
  | some split =>
    obtain ⟨host, port⟩ := split
    obtain ⟨hp, _, ⟨rfl, hcolon⟩ | rfl⟩ := splitHostPort_inv hsplit
    · -- It would have one colon only.
      have htwo := Pki.two_colons_of_parseIP h (by simp)
      simp [List.count_eq_zero_of_not_mem hp, List.count_eq_zero_of_not_mem hcolon] at htwo
    · exact absurd (by simp) (unbracketed_of_parseIP h).1

/-- How an entry gives an address: by itself, with a port, or in brackets with a port. -/
inductive Entry (ip : IP) : String → Prop
  | bare {t : String} : Go.parseIP t = some ip → Entry ip t
  | ported {t port : String} : Go.parseIP t = some ip → ':' ∉ t.toList → ':' ∉ port.toList →
      Unbracketed port → Entry ip (t ++ ":" ++ port)
  | bracketed {t port : String} : Go.parseIP t = some ip → ':' ∉ port.toList →
      Unbracketed port → Entry ip ("[" ++ t ++ "]:" ++ port)

theorem entry_iff {ip : IP} {addr : String} :
    Entry ip addr ↔ Go.parseIP (hostOf addr) = some ip := by
  constructor
  · rintro (h | ⟨h, hcolon, hp, hport⟩ | ⟨h, hp, hport⟩)
    · rw [hostOf, splitHostPort_address h]
      exact h
    · rw [hostOf, splitHostPort_plain hcolon (unbracketed_of_parseIP h) hp hport]
      exact h
    · rw [hostOf, splitHostPort_bracketed (unbracketed_of_parseIP h) hp hport]
      exact h
  · intro h
    rw [hostOf] at h
    cases hsplit : Go.splitHostPort addr with
    | none =>
      rw [hsplit] at h
      exact .bare h
    | some split =>
      obtain ⟨host, port⟩ := split
      rw [hsplit] at h
      obtain ⟨hp, hport, ⟨rfl, hcolon⟩ | rfl⟩ := splitHostPort_inv hsplit
      · exact .ported h hcolon hp hport
      · exact .bracketed h hp hport

/-- **Whose an entry is**: a trusted proxy's where it gives an address of one of the networks. -/
theorem isTrustedProxy_iff {proxies : List IPNet} {addr : String} :
    isTrustedProxy proxies addr = true ↔
      ∃ ip, Entry ip addr ∧ ∃ n ∈ proxies, n.contains ip = true := by
  simp only [entry_iff]
  unfold isTrustedProxy
  cases Go.parseIP (hostOf addr) with
  | none => simp
  | some ip => simp

/-- An address in brackets without a port is no trusted proxy's, whatever the networks are. -/
theorem isTrustedProxy_brackets {proxies : List IPNet} {t : String} :
    isTrustedProxy proxies ("[" ++ t ++ "]") = false := by
  rw [Bool.eq_false_iff, ne_eq, isTrustedProxy_iff]
  rintro ⟨ip, hentry, _⟩
  generalize haddr : "[" ++ t ++ "]" = addr at hentry
  have hchars : '[' :: t.toList ++ [']'] = addr.toList := by
    rw [← haddr]
    simp
  -- A port would end in the bracket.
  have hport (front : List Char) {port : List Char} (h : '[' :: t.toList ++ [']'] = front ++ ':' :: port) :
      ']' ∈ port := by
    have hlast := congrArg List.getLast? h
    rw [List.getLast?_append, List.getLast?_append] at hlast
    have hmem : ']' ∈ ':' :: port := List.mem_of_getLast? (by simpa using hlast.symm)
    simpa using hmem
  cases hentry with
  | bare h => exact (unbracketed_of_parseIP h).1 (hchars ▸ by simp)
  | @ported t' port _ _ _ hfree => exact hfree.2 (hport t'.toList (by simpa using hchars))
  | @bracketed t' port _ _ hfree =>
    exact hfree.2 (hport ('[' :: t'.toList ++ [']']) (by simpa using hchars))

section

variable {proxies : List IPNet}

/-! ## Hops -/

/-- The addresses of one header line, as they are written. -/
def lineHops (line : String) : List String :=
  ((Go.split line ',').map Go.trimSpace).filter (· ≠ "")

/-- The addresses of the header lines, one line after the other. -/
def hops (lines : List String) : List String := lines.flatMap lineHops

/-- The rightmost address that is none of a trusted proxy. -/
def rightmost? (proxies : List IPNet) (addrs : List String) : Option String :=
  addrs.reverse.find? fun addr => !isTrustedProxy proxies addr

/-- **The address of the client cannot be forged**: behind a trusted proxy it is the rightmost
address of all the lines that is none of a trusted proxy, whatever stands before it, and the peer
where there is none; it is the peer where the peer is no trusted proxy. -/
structure Unforged (proxies : List IPNet) (r : Arrival) : Prop where
  hop : isTrustedProxy proxies (hostOf r.remoteAddr) = true → ∀ before addr behind,
    hops r.forwardedFor = before ++ addr :: behind → isTrustedProxy proxies addr = false →
      (∀ a ∈ behind, isTrustedProxy proxies a = true) → clientIP proxies r = addr
  none : isTrustedProxy proxies (hostOf r.remoteAddr) = true →
    (∀ a ∈ hops r.forwardedFor, isTrustedProxy proxies a = true) →
      clientIP proxies r = hostOf r.remoteAddr
  peer : isTrustedProxy proxies (hostOf r.remoteAddr) = false →
    clientIP proxies r = hostOf r.remoteAddr

theorem rightmost?_append (as bs : List String) :
    rightmost? proxies (as ++ bs) = (rightmost? proxies bs).or (rightmost? proxies as) := by
  rw [rightmost?, List.reverse_append, List.find?_append]
  rfl

theorem rightmost?_eq_none {addrs : List String} :
    rightmost? proxies addrs = none ↔ ∀ a ∈ addrs, isTrustedProxy proxies a = true := by
  rw [rightmost?, List.find?_eq_none]
  simp

/-- What the rightmost address stands behind does not matter. -/
theorem rightmost?_of_split {before behind : List String} {addr : String}
    (haddr : isTrustedProxy proxies addr = false)
    (hbehind : ∀ a ∈ behind, isTrustedProxy proxies a = true) :
    rightmost? proxies (before ++ addr :: behind) = some addr := by
  have hlast : rightmost? proxies [addr] = some addr := by
    simp [rightmost?, haddr]
  rw [List.append_cons, rightmost?_append, rightmost?_eq_none.mpr hbehind, Option.none_or,
    rightmost?_append, hlast]
  rfl

/-- Where there is a rightmost address, only trusted proxies stand behind it. -/
theorem split_of_rightmost? {addrs : List String} {addr : String}
    (h : rightmost? proxies addrs = some addr) : ∃ before behind,
      addrs = before ++ addr :: behind ∧ isTrustedProxy proxies addr = false ∧
        ∀ a ∈ behind, isTrustedProxy proxies a = true := by
  obtain ⟨haddr, behind, before, hsplit, hbehind⟩ := List.find?_eq_some_iff_append.mp h
  refine ⟨before.reverse, behind.reverse, ?_, by simpa using haddr, ?_⟩
  · rw [← List.reverse_reverse addrs, hsplit]
    simp
  · intro a ha
    simpa using hbehind a (List.mem_reverse.mp ha)

/-! ## The walk -/

theorem walk_eq (parts : List String) : walk proxies parts =
    ((parts.map Go.trimSpace).filter (· ≠ "")).find? fun addr => !isTrustedProxy proxies addr := by
  induction parts with
  | nil => rfl
  | cons part parts ih =>
    rw [walk, List.map_cons]
    by_cases hempty : Go.trimSpace part = ""
    · rw [if_pos hempty, List.filter_cons_of_neg (by simp [hempty]), ih]
    · rw [if_neg hempty, List.filter_cons_of_pos (by simp [hempty]), List.find?_cons]
      cases htrusted : isTrustedProxy proxies (Go.trimSpace part) with
      | false => simp
      | true => simp [ih]

/-- The walk finds the rightmost address of a line. -/
theorem walk_reverse_split (line : String) :
    walk proxies (Go.split line ',').reverse = rightmost? proxies (lineHops line) := by
  rw [walk_eq, List.map_reverse, List.filter_reverse]
  rfl

/-- **What `clientIP` returns** behind a trusted proxy. -/
theorem clientIP_of_trusted {r : Arrival}
    (h : isTrustedProxy proxies (hostOf r.remoteAddr) = true) : clientIP proxies r =
      (rightmost? proxies (lineHops (headerGet r.forwardedFor))).getD (hostOf r.remoteAddr) := by
  have hne : ¬ (proxies.isEmpty = true ∨
      isTrustedProxy proxies (hostOf r.remoteAddr) = false) := by
    rintro (hempty | hpeer)
    · rw [List.isEmpty_iff.mp hempty, isTrustedProxy] at h
      split at h <;> cases h
    · exact absurd (h.symm.trans hpeer) Bool.false_ne_true.symm
  rw [clientIP, if_neg hne]
  exact congrArg (Option.getD · _) (walk_reverse_split _)

theorem clientIP_of_untrusted {r : Arrival}
    (h : isTrustedProxy proxies (hostOf r.remoteAddr) = false) :
    clientIP proxies r = hostOf r.remoteAddr := by
  rw [clientIP, if_pos (.inr h)]

/-- A request whose first line gives the rightmost address of all. -/
theorem unforged_of_first {r : Arrival}
    (h : rightmost? proxies (hops r.forwardedFor) =
      rightmost? proxies (lineHops (headerGet r.forwardedFor))) : Unforged proxies r where
  hop := by
    intro hpeer before addr behind hsplit haddr hbehind
    rw [clientIP_of_trusted hpeer, ← h, hsplit, rightmost?_of_split haddr hbehind]
    rfl
  none := by
    intro hpeer hall
    rw [clientIP_of_trusted hpeer, ← h, rightmost?_eq_none.mpr hall]
    rfl
  peer := clientIP_of_untrusted

/-- Two words that a client may write, and that are no addresses. -/
theorem hops_word : ∀ word ∈ ["x", "y"], lineHops word = [word] ∧
    (Go.parseIP (hostOf word)).isNone = true := by
  decide +kernel

/-- What is no address at all is none of a trusted proxy. -/
theorem isTrustedProxy_word {word : String} (h : (Go.parseIP (hostOf word)).isNone = true) :
    isTrustedProxy proxies word = false := by
  rw [isTrustedProxy, Option.isNone_iff_eq_none.mp h]

/-- **When the address of the client cannot be forged**: without the header, and whatever stands on
its first line just where the lines behind that one hold trusted proxies only, or the peer is no
trusted proxy. -/
theorem clientIP_unforged (proxies : List IPNet) (remoteAddr : String) (later : List String) :
    Unforged proxies ⟨remoteAddr, []⟩ ∧
      ((∀ line, Unforged proxies ⟨remoteAddr, line :: later⟩) ↔
        (isTrustedProxy proxies (hostOf remoteAddr) = true →
          ∀ addr ∈ hops later, isTrustedProxy proxies addr = true)) := by
  refine ⟨unforged_of_first rfl, ?_, ?_⟩
  · intro hall hpeer
    rw [← rightmost?_eq_none, Option.eq_none_iff_forall_not_mem]
    intro addr hlast
    obtain ⟨before, behind, hsplit, haddr, hbehind⟩ := split_of_rightmost? hlast
    -- The client may write one of two words on the first line, and neither is a proxy.
    have htaken : ∀ line, clientIP proxies ⟨remoteAddr, line :: later⟩ = addr := by
      intro line
      refine (hall line).hop hpeer (lineHops line ++ before) addr behind ?_ haddr hbehind
      rw [hops, List.flatMap_cons, ← hops, hsplit, List.append_assoc]
    have hforged : ∀ word ∈ ["x", "y"], word = addr := by
      intro word hword
      obtain ⟨hline, hnone⟩ := hops_word word hword
      have htrusted : isTrustedProxy proxies word = false := isTrustedProxy_word hnone
      rw [← htaken word, clientIP_of_trusted (r := ⟨remoteAddr, word :: later⟩) hpeer]
      show word = (rightmost? proxies (lineHops word)).getD _
      rw [hline]
      simp [rightmost?, htrusted]
    exact absurd ((hforged "x" (by simp)).trans (hforged "y" (by simp)).symm) (by simp)
  · intro h line
    cases hpeer : isTrustedProxy proxies (hostOf remoteAddr) with
    | false =>
      refine ⟨fun htrusted => ?_, fun htrusted => ?_, clientIP_of_untrusted⟩
      · cases hpeer.symm.trans htrusted
      · cases hpeer.symm.trans htrusted
    | true =>
      refine unforged_of_first ?_
      rw [hops, List.flatMap_cons, ← hops, rightmost?_append,
        rightmost?_eq_none.mpr (h hpeer), Option.none_or]
      rfl

end

/-- The hop that the proxy 10.0.0.5 put on a line of its own is passed over, and the client is
whoever it says it is. -/
theorem ownLine_forged : ¬ Unforged (parseTrustedProxies ["10.0.0.0/8"])
    ⟨"10.0.0.5:443", ["1.2.3.4", "198.51.100.9"]⟩ := by
  intro h
  have hip := h.hop (by decide +kernel) ["1.2.3.4"] "198.51.100.9" [] (by decide +kernel)
    (by decide +kernel) (by simp)
  exact absurd hip (by decide +kernel)

end Goca.Web
