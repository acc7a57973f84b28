import Goca.Lib.Alone
import Goca.Laws.Forest
import Goca.Laws.Samples
import Goca.Store.Authorities

/-!
# A certificate is stored once

Calls that run one after the other, each of them to its end or to wherever it is cut off. An import
looks its certificate up by fingerprint before anything else, and `importAnchor` does the same for
every certificate of the chain. Two steps look at nothing: the row that `ImportCA` inserts after the
chain, when the chain brought the same certificate in, and the row that `CompleteSubordinate`
completes. And a lookup that fails is taken for one that found nothing.

`reached_unique` says that nothing else stores a certificate twice: where every call keeps clear of
these, no two authorities ever have one fingerprint.
-/

set_option autoImplicit false

namespace Goca

open Goca.Ca (confirmsIssuer)
open Goca.Pki (Fingerprint PemText X509 fingerprintSHA256 isSelfSigned parseCertChainPEM)
open Goca.Store
open Interleave (Act Pool Prog Trace)
open Interleave.Act
open Sql (Table)

/-! ## Sequences of calls -/

/-- No two authorities have the same fingerprint, the empty one apart. -/
def UniqueFingerprints (t : Table CA) : Prop :=
  ∀ c ∈ t.rows, ∀ d ∈ t.rows, c.fingerprint.isSome = true → c.fingerprint = d.fingerprint → c = d

/-- No authority has the fingerprint. -/
def Absent (fp : Fingerprint) (w : World) : Prop := ∀ d ∈ w.ca.cas.rows, d.fingerprint ≠ fp

/-- An authority is stored that made the signature of the certificate. -/
def HasIssuer (w : World) (cert : X509) : Prop :=
  ∃ c ∈ w.ca.cas.rows, confirmsIssuer cert c = true

/-- What a call is told keeps it clear: its lookups do not fail, and a serial number that it draws
is not that of a stored certificate. -/
def keepsClear (w₀ : World) : (s : Stmt) × s.Ans → Bool
  | ⟨.ca (.selectCAByFingerprint _), .error _⟩ => false
  | ⟨.ca .listCAs, .error _⟩ => false
  | ⟨.host .newSerial, .ok n⟩ =>
    w₀.ca.cas.rows.all fun d => d.fingerprint.all fun c => c.serialNumber != n
  | _ => true

/-- The supplied chain does not bring the certificate itself in: it is not used, or the certificate
is none of its authorities. -/
def LinksApart (w : World) (cert : X509) (chainPEM : PemText) : Prop :=
  isSelfSigned cert = true ∨ HasIssuer w cert ∨
    ∀ chain, parseCertChainPEM chainPEM = .ok chain → cert ∈ chain → cert.isCA = false

/-- What a request must bring in order to store nothing twice. -/
def BringsApart (w : World) : Request → Prop
  | .importCA i => ∀ cert chainPEM, Ca.leadCertificate i.certPEM i.chainPEM = .ok (cert, chainPEM) →
    LinksApart w cert chainPEM
  | .completeSubordinate i => ∀ cert chainPEM,
    Ca.leadCertificate i.certPEM i.chainPEM = .ok (cert, chainPEM) →
    LinksApart w cert chainPEM ∧ Absent (some cert) w
  | _ => True

section

variable [Go.Runtime]

/-- A call that stores nothing twice: what it brings is apart from what is stored, and what it is
told keeps it clear. -/
structure StoresOnce (w : World) (c : Call) (es : List Env) : Prop where
  brings : BringsApart w c.request
  told : ∀ x ∈ Interleave.own 0 (alone w c es).history, keepsClear w x = true

/-- The databases that calls reach one after the other, each of which may be cut off. -/
inductive Reached (ok : World → Call → List Env → Prop) (w₀ : World) : World → Prop
  | start : Reached ok w₀ w₀
  | call {w : World} (h : Reached ok w₀ w) (c : Call) (es : List Env) (hc : ok w c es) :
    Reached ok w₀ (alone w c es).world

end

/-! ## One statement -/

/-- A statement stores no fingerprint that is there already. -/
def FreshPrint (w : World) : Stmt → Prop
  | .ca (.insertCA c) => c.fingerprint.isSome = true → Absent c.fingerprint w
  | .ca (.completeCA _ c) => c.fingerprint.isSome = true → Absent c.fingerprint w
  | _ => True

theorem uniqueFingerprints_iff {t : Table CA} : UniqueFingerprints t ↔ ∀ i j c d,
    t.get? i = some c → t.get? j = some d → c.fingerprint.isSome = true →
    c.fingerprint = d.fingerprint → i = j := by
  constructor
  · intro h i j c d hc hd hsome heq
    rw [← Table.key_of_get? hc, ← Table.key_of_get? hd,
      h c (Table.mem_of_get? hc) d (Table.mem_of_get? hd) hsome heq]
  · intro h c hc d hd hsome heq
    refine Table.eq_of_key_eq hc hd ?_
    exact h _ _ c d (Table.get?_of_mem hc) (Table.get?_of_mem hd) hsome heq

section Step

variable [Go.Runtime] {e : Env} {w w' : World} {s : Stmt} {x : s.Ans}

/-- A row of the new table has the fingerprint of a row that was there under its number, or the
statement wrote it. -/
theorem print_step (h : exec e w s = some (x, w')) {i : Nat} {c : CA}
    (hc : w'.ca.cas.get? i = some c) :
    (∃ d, w.ca.cas.get? i = some d ∧ d.fingerprint = c.fingerprint) ∨
      (∃ n, s = .ca (.insertCA n) ∧ i = w.ca.cas.seq + 1 ∧ n.fingerprint = c.fingerprint) ∨
      ∃ n, s = .ca (.completeCA i n) ∧ n.fingerprint = c.fingerprint := by
  have hstep := authority_step h i
  rw [hc] at hstep
  generalize w.ca.cas.get? i = r at hstep ⊢
  generalize hr' : some c = r' at hstep
  cases hstep with
  | same => exact .inl ⟨c, hr'.symm, rfl⟩
  | inserted n hi _ =>
    cases hr'
    exact .inr (.inl ⟨n, rfl, hi, rfl⟩)
  | marked id d =>
    cases hr'
    exact .inl ⟨d, rfl, rfl⟩
  | status st d _ =>
    cases hr'
    exact .inl ⟨d, rfl, rfl⟩
  | numbered d =>
    cases hr'
    exact .inl ⟨d, rfl, rfl⟩
  | completed n d _ =>
    cases hr'
    exact .inr (.inr ⟨n, rfl, rfl⟩)

/-- **A statement that stores no known fingerprint** keeps the fingerprints apart. -/
theorem unique_step (h : exec e w s = some (x, w')) (hs : FreshPrint w s)
    (hw : UniqueFingerprints w.ca.cas) : UniqueFingerprints w'.ca.cas := by
  have hfresh {fp : Fingerprint} {i : Nat} {d : CA} (ha : Absent fp w)
      (hd : w.ca.cas.get? i = some d) : d.fingerprint ≠ fp := ha d (Table.mem_of_get? hd)
  rw [uniqueFingerprints_iff] at hw ⊢
  intro i j c d hc hd hsome heq
  rcases print_step h hc with ⟨c₀, hc₀, hcp⟩ | ⟨n, rfl, hi, hcp⟩ | ⟨n, rfl, hcp⟩
  · rcases print_step h hd with ⟨d₀, hd₀, hdp⟩ | ⟨n, rfl, hj, hdp⟩ | ⟨n, rfl, hdp⟩
    · exact hw i j c₀ d₀ hc₀ hd₀ (by rw [hcp]; exact hsome) (by rw [hcp, hdp]; exact heq)
    · have habsent : Absent n.fingerprint w := hs (by rw [hdp, ← heq]; exact hsome)
      exact absurd (by rw [hcp, hdp]; exact heq) (hfresh habsent hc₀)
    · have habsent : Absent n.fingerprint w := hs (by rw [hdp, ← heq]; exact hsome)
      exact absurd (by rw [hcp, hdp]; exact heq) (hfresh habsent hc₀)
  · have habsent : Absent n.fingerprint w := hs (by rw [hcp]; exact hsome)
    rcases print_step h hd with ⟨d₀, hd₀, hdp⟩ | ⟨m, hm, hj, _⟩ | ⟨m, hm, _⟩
    · exact absurd (by rw [hcp, hdp]; exact heq.symm) (hfresh habsent hd₀)
    · rw [hi, hj]
    · cases hm
  · have habsent : Absent n.fingerprint w := hs (by rw [hcp]; exact hsome)
    rcases print_step h hd with ⟨d₀, hd₀, hdp⟩ | ⟨m, hm, hj, _⟩ | ⟨m, hm, _⟩
    · exact absurd (by rw [hcp, hdp]; exact heq.symm) (hfresh habsent hd₀)
    · cases hm
    · cases hm
      rfl

/-- A statement that writes no authority leaves the authorities as they are. -/
theorem cas_kept (h : exec e w s = some (x, w')) (hs : Within [.signCertificate] s) :
    w'.ca.cas = w.ca.cas := by
  refine exec_ca_induction
    (P := fun s t t' => Within [.signCertificate] s → t'.cas = t.cas) (fun _ _ _ => rfl) ?_ h hs
  intro s t _ hs
  cases s with
  | insertCA c => simp [Within, Stmt.effect?] at hs
  | completeCA id c => simp [Within, Stmt.effect?] at hs
  | insertCertificate c => simp [Within, Stmt.effect?] at hs
  | setDefaultCA id => simp [Within, Stmt.effect?] at hs
  | setCAStatus id st => simp [Within, Stmt.effect?] at hs
  | nextCRLNumber id => simp [Within, Stmt.effect?] at hs
  | _ => rfl

/-- Inserting a row brings no other fingerprint in. -/
theorem absent_of_inserted {c : CA} {x : Except Go.Error Nat}
    (h : exec e w (.ca (.insertCA c)) = some (x, w')) {fp : Fingerprint} (hne : c.fingerprint ≠ fp)
    (hw : Absent fp w) : Absent fp w' := by
  intro d hd heq
  rcases print_step h (Table.get?_of_mem hd) with ⟨d₀, hd₀, hdp⟩ | ⟨n, hn, _, hdp⟩ | ⟨n, hn, _⟩
  · exact hw d₀ (Table.mem_of_get? hd₀) (hdp.trans heq)
  · cases hn
    exact hne (hdp.trans heq)
  · cases hn

end Step

/-! ## The calls -/

section Walk

variable [Go.Runtime] {ε α : Type} {w₀ w : World} {q : Trace sig}

/-- Every call may be given any environment. -/
def AnyEnv (_ : Env) : Prop := True

/-- All that a call was told kept it clear. -/
def Clear (w₀ : World) (q : Trace sig) : Prop := ∀ x ∈ q, keepsClear w₀ x = true

omit [Go.Runtime] in
theorem Clear.before {q q' : Trace sig} (h : Clear w₀ q') (hq : q <+: q') : Clear w₀ q :=
  fun x hx => h x (hq.subset hx)

/-- What a call that was kept clear may ask: no known fingerprint is stored. -/
def AsksFresh (w₀ w : World) (q : Trace sig) (s : Stmt) : Prop := Clear w₀ q → FreshPrint w s

omit [Go.Runtime] in
theorem freshPrint_of_within {ks : List Effect} (h₁ : .insertCA ∉ ks) (h₂ : .completeCA ∉ ks)
    {s : Stmt} (hs : Within ks s) : FreshPrint w s := by
  unfold FreshPrint
  split
  · exact absurd hs h₁
  · exact absurd hs h₂
  · trivial

/-- What stores no certificate of an authority may be asked at any time. -/
theorem bystander_prog_alone {ks : List Effect} (h₁ : .insertCA ∉ ks) (h₂ : .completeCA ∉ ks)
    {p : Prog sig α} (hp : p.Uses (Within ks)) :
    p.Alone exec AnyEnv (AsksFresh w₀) (fun _ _ _ => True) w q :=
  Prog.Uses.alone (J := fun _ _ => True) hp
    (fun _ _ _ _ hs _ => freshPrint_of_within h₁ h₂ hs) (fun _ _ _ _ _ _ _ _ _ => trivial) trivial

theorem bystander_alone (ks : List Effect) (h₁ : .insertCA ∉ ks) (h₂ : .completeCA ∉ ks)
    {x : Handler ε α} (hx : x.Uses (Within ks)) :
    x.Alone exec AnyEnv (AsksFresh w₀) (fun _ _ _ => True) w q := bystander_prog_alone h₁ h₂ hx

/-- What writes no authority leaves them as they are. -/
theorem still_alone {x : Handler ε α} (hx : x.Uses (Within [.signCertificate])) :
    x.Alone exec AnyEnv (AsksFresh w₀) (fun w' q' _ => w'.ca.cas = w.ca.cas ∧ q <+: q') w q := by
  refine Prog.Uses.alone (J := fun (w' : World) q' => w'.ca.cas = w.ca.cas ∧ q <+: q') hx
    (fun _ _ _ _ hs _ => freshPrint_of_within (by decide) (by decide) hs) ?_
    ⟨rfl, List.prefix_refl q⟩
  intro e w' q' s x w'' hs hJ h
  exact ⟨(cas_kept h hs).trans hJ.1, hJ.2.trans (List.prefix_append q' _)⟩

theorem still_bind {β : Type} {post : World → Trace sig → Except ε β → Prop} {x : Handler ε α}
    {f : α → Handler ε β} (hx : x.Uses (Within [.signCertificate]))
    (hf : ∀ w' q' a, w'.ca.cas = w.ca.cas → q <+: q' →
      (f a).Alone exec AnyEnv (AsksFresh w₀) post w' q')
    (herror : ∀ w' q' e, w'.ca.cas = w.ca.cas → q <+: q' → post w' q' (.error e)) :
    (x >>= f).Alone exec AnyEnv (AsksFresh w₀) post w q :=
  Alone.bind (still_alone hx) (fun w' q' a h => hf w' q' a h.1 h.2)
    fun w' q' e h => herror w' q' e h.1 h.2

/-- The lookup by fingerprint: where it was told the truth, finding nothing means that nothing is
there. -/
theorem findCAByFingerprint_alone (fp : Fingerprint) :
    ((findCAByFingerprint fp).attempt : Handler ε (Except Go.Error CA)).Alone exec AnyEnv
      (AsksFresh w₀) (fun w' q' r => w'.ca.cas = w.ca.cas ∧ q <+: q' ∧
        ∀ err, r = .ok (.error err) → Clear w₀ q' → Absent fp w') w q := by
  refine Alone.mapResult (Alone.mapResult ⟨fun _ => trivial, ?_⟩)
  intro e x w' _ h
  obtain ⟨_, hx, _⟩ := exec_ca h
  refine ⟨cas_kept h trivial, List.prefix_append q _, ?_⟩
  intro err herr hclear d hd heq
  have htold : keepsClear w₀ ⟨.ca (.selectCAByFingerprint fp), x⟩ = true :=
    hclear _ (List.mem_append_right q (List.mem_singleton_self _))
  have ha : x = .ok none := by
    rcases x with e | _ | c
    · cases htold
    · rfl
    · cases herr
  have hfilter : pickRow e.pick (w.ca.cas.rows.filter (·.fingerprint == fp)) = none := by
    obtain ⟨hanswer, _⟩ := Fault.apply_ok (hx.symm.trans ha)
    exact Except.ok.inj hanswer
  have hempty : w.ca.cas.rows.filter (·.fingerprint == fp) = [] := by
    unfold pickRow at hfilter
    by_contra hne
    have hlt := Nat.mod_lt e.pick (List.length_pos_iff.mpr hne)
    rw [List.getElem?_eq_getElem hlt] at hfilter
    cases hfilter
  rw [cas_kept h trivial] at hd
  have hmem : d ∈ w.ca.cas.rows.filter (·.fingerprint == fp) :=
    List.mem_filter.mpr ⟨hd, beq_iff_eq.mpr heq⟩
  rw [hempty] at hmem
  cases hmem

/-- The issuer is looked up by reading only; one that is stored is found where no lookup fails. -/
theorem findIssuerID_alone (cert : X509) :
    (Ca.findIssuerID cert : Handler ε (Option Nat)).Alone exec AnyEnv (AsksFresh w₀)
      (fun w' q' r => w'.ca.cas = w.ca.cas ∧ q <+: q' ∧
        (HasIssuer w cert → Clear w₀ q' → r ≠ .ok none)) w q := by
  have hstop {w' : World} {q' : Trace sig} (id : Nat) (hw : w'.ca.cas = w.ca.cas) (hq : q <+: q') :
      (pure (some id) : Handler ε (Option Nat)).Alone exec AnyEnv (AsksFresh w₀)
        (fun w' q' r => w'.ca.cas = w.ca.cas ∧ q <+: q' ∧
          (HasIssuer w cert → Clear w₀ q' → r ≠ .ok none)) w' q' :=
    alone_pure ⟨hw, hq, fun _ _ h => nomatch h⟩
  refine Alone.bind (still_alone (findCABySubjectKeyID_uses _).attempt) ?_
    fun w' q' e h => ⟨h.1, h.2, fun _ _ h => nomatch h⟩
  intro w₁ q₁ byKey h₁
  split
  · exact hstop _ h₁.1 h₁.2
  · refine Alone.bind (still_alone ((ca_uses trivial).mapResult _).attempt) ?_
      fun w' q' e h => ⟨h.1.trans h₁.1, h₁.2.trans h.2, fun _ _ h => nomatch h⟩
    intro w₂ q₂ bySubject h₂
    split
    · exact hstop _ (h₂.1.trans h₁.1) (h₁.2.trans h₂.2)
    · refine Alone.bind (m := fun w' q' r => w'.ca.cas = w.ca.cas ∧ q <+: q' ∧
        (Clear w₀ q' → ∃ all, r = .ok (.ok all) ∧ ∀ c ∈ w.ca.cas.rows, c ∈ all)) ?_ ?_
        fun w' q' e h => ⟨h.1, h.2.1, fun _ _ h => nomatch h⟩
      · refine Alone.mapResult ⟨fun _ => trivial, ?_⟩
        intro e x w₃ _ h
        have hcas : w₂.ca.cas = w.ca.cas := h₂.1.trans h₁.1
        obtain ⟨_, hx, _⟩ := exec_ca h
        refine ⟨(cas_kept h trivial).trans hcas,
          (h₁.2.trans h₂.2).trans (List.prefix_append q₂ _), ?_⟩
        intro hclear
        have htold : keepsClear w₀ ⟨.ca .listCAs, x⟩ = true :=
          hclear _ (List.mem_append_right q₂ (List.mem_singleton_self _))
        obtain ⟨all, hall⟩ : ∃ all, x = .ok all := by
          cases x with
          | error e => cases htold
          | ok all => exact ⟨all, rfl⟩
        refine ⟨all, congrArg _ hall, ?_⟩
        obtain ⟨hanswer, _⟩ := Fault.apply_ok (hx.symm.trans hall)
        obtain rfl : _ = all := Except.ok.inj hanswer
        intro c hc
        rw [← hcas] at hc
        by_cases hdefault : c.isDefault = true
        · exact List.mem_append_left _ (List.mem_filter.mpr ⟨hc, hdefault⟩)
        · exact List.mem_append_right _ (List.mem_filter.mpr ⟨hc, by simpa using hdefault⟩)
      · intro w₃ q₃ all h₃
        cases all with
        | error e =>
          refine alone_pure ⟨h₃.1, h₃.2.1, ?_⟩
          intro _ hclear
          obtain ⟨all, hall, _⟩ := h₃.2.2 hclear
          cases hall
        | ok all =>
          refine alone_pure ⟨h₃.1, h₃.2.1, ?_⟩
          intro hissuer hclear hnone
          obtain ⟨all', hall, hmem⟩ := h₃.2.2 hclear
          cases hall
          obtain ⟨c, hc, hconfirms⟩ := hissuer
          have hfind : all.find? (confirmsIssuer cert) = none :=
            Option.map_eq_none_iff.mp (Except.ok.inj hnone)
          exact List.find?_eq_none.mp hfind c (hmem c hc) hconfirms

/-- A part of a call that stores nothing under the fingerprint. -/
def Spares (w₀ : World) (fp : Fingerprint) (w : World) (q : Trace sig) (w' : World)
    (q' : Trace sig) : Prop := q <+: q' ∧ (Absent fp w → Clear w₀ q' → Absent fp w')

omit [Go.Runtime] in
theorem Spares.of_same {fp : Fingerprint} {w' : World} {q' : Trace sig}
    (h : w'.ca.cas = w.ca.cas) (hq : q <+: q') : Spares w₀ fp w q w' q' := by
  refine ⟨hq, fun ha _ => ?_⟩
  unfold Absent
  rw [h]
  exact ha

omit [Go.Runtime] in
theorem Spares.trans {fp : Fingerprint} {w' w'' : World} {q' q'' : Trace sig}
    (h : Spares w₀ fp w q w' q') (h' : Spares w₀ fp w' q' w'' q'') : Spares w₀ fp w q w'' q'' :=
  ⟨h.1.trans h'.1, fun ha hc => h'.2 (h.2 ha (hc.before h'.1)) hc⟩

variable (w₀) in
/-- **Storing an authority** under a fingerprint that is not there. -/
theorem createCA_alone {c : CA}
    (hfresh : Clear w₀ q → c.fingerprint.isSome = true → Absent c.fingerprint w) :
    (Store.createCA c).Alone exec AnyEnv (AsksFresh w₀)
      (fun w' q' _ => ∀ fp, c.fingerprint ≠ fp → Spares w₀ fp w q w' q') w q := by
  have hmark : (markDefault c).Alone exec AnyEnv (AsksFresh w₀) (fun w' q' r =>
      (w'.ca.cas = w.ca.cas ∧ q <+: q') ∧ ∀ c', r = .ok c' → c'.fingerprint = c.fingerprint)
      w q := by
    unfold markDefault
    by_cases hissuing : c.hasKey = true ∧ c.status = .active
    · rw [if_pos hissuing]
      refine Alone.bind (still_alone (ca_uses trivial).attempt) ?_ fun w' q' e h =>
        ⟨h, fun _ h => nomatch h⟩
      intro w₁ q₁ n h₁
      refine alone_pure ⟨h₁, ?_⟩
      intro c' hc'
      cases hc'
      split <;> rfl
    · rw [if_neg hissuing]
      refine alone_pure ⟨⟨rfl, List.prefix_refl q⟩, ?_⟩
      intro c' hc'
      cases hc'
      rfl
  refine Alone.bind hmark ?_ fun w' q' e h _ _ => .of_same h.1.1 h.1.2
  intro w₁ q₁ c' h₁
  have hprint := h₁.2 c' rfl
  have hsame (fp : Fingerprint) : Spares w₀ fp w q w₁ q₁ := .of_same h₁.1.1 h₁.1.2
  refine Alone.bind (m := fun w' q' _ => ∀ fp, c.fingerprint ≠ fp → Spares w₀ fp w q w' q') ?_ ?_
    fun _ _ _ h => h
  · refine Alone.mapResult ⟨?_, ?_⟩
    · intro hclear hsome d hd
      rw [hprint] at hsome ⊢
      rw [h₁.1.1] at hd
      exact hfresh (hclear.before h₁.1.2) hsome d hd
    · intro e x w₂ _ h fp hne
      refine (hsame fp).trans ⟨List.prefix_append q₁ _, fun ha _ => ?_⟩
      exact absent_of_inserted h (by rw [hprint]; exact hne) ha
  · intro w₂ q₂ id h₂
    refine Prog.Alone.mono ?_ (still_alone (getCA_uses id))
    intro w' q' r h fp hne
    exact (h₂ fp hne).trans (.of_same h.1 h.2)

/-- Completing a row with a fingerprint that is not there. -/
theorem completeCA_alone {id : Nat} {c : CA}
    (hfresh : Clear w₀ q → c.fingerprint.isSome = true → Absent c.fingerprint w) :
    (Store.completeCA id c).Alone exec AnyEnv (AsksFresh w₀) (fun _ _ _ => True) w q :=
  Alone.mapResult ⟨hfresh, fun _ _ _ _ _ => trivial⟩

/-- A serial number that was drawn is not that of a stored certificate. -/
theorem newSerial_alone (hw : w.ca.cas = w₀.ca.cas) :
    Pki.newSerial.Alone exec AnyEnv (AsksFresh w₀)
      (fun w' q' r => w'.ca.cas = w.ca.cas ∧ q <+: q' ∧ ∀ n, r = .ok n → Clear w₀ q' →
        ∀ d ∈ w'.ca.cas.rows, ∀ c, d.fingerprint = some c → c.serialNumber ≠ n) w q := by
  refine Alone.mapResult ⟨fun _ => trivial, ?_⟩
  intro e x w' _ h
  have hcas := cas_kept h trivial
  refine ⟨hcas, List.prefix_append q _, ?_⟩
  intro n hn hclear d hd
  have hdrawn : keepsClear w₀ ⟨.host .newSerial, x⟩ = true :=
    hclear _ (List.mem_append_right q (List.mem_singleton_self _))
  rw [hcas, hw] at hd
  intro c hc
  cases x with
  | error e => cases hn
  | ok m =>
    obtain rfl : m = n := Except.ok.inj hn
    have hall := List.all_eq_true.mp hdrawn d hd
    rw [hc] at hall
    exact bne_iff_ne.mp hall

/-- A certificate has the serial number of its template. -/
theorem signTemplate_alone (t : Pki.Template) (parent : Option X509) (pub : Pki.PublicKey)
    (priv : Pki.PrivateKey) : (Pki.signTemplate t parent pub priv).Alone exec AnyEnv (AsksFresh w₀)
      (fun w' q' r => w'.ca.cas = w.ca.cas ∧ q <+: q' ∧
        ∀ c, r = .ok c → c.serialNumber = t.serialNumber) w q := by
  refine Alone.mapResult ⟨fun _ => trivial, ?_⟩
  intro e x w' _ h
  refine ⟨cas_kept h (List.mem_singleton_self _), List.prefix_append q _, ?_⟩
  intro c hc
  obtain ⟨_, h⟩ := exec_host h
  cases h
  exact (Pki.x509CreateCertificate_ok (Fault.answer_ok hc)).1

variable (s : Ca.Service)

-- from here on the rules above are all that is used of it
attribute [local irreducible] Act.Alone

/-- One certificate of a chain, with another fingerprint: it is stored where it is not there. -/
theorem importAnchor_alone (actor : String) {anchor : X509} {fp : Fingerprint}
    (hne : fingerprintSHA256 anchor = fp → anchor.isCA = false) :
    (s.importAnchor actor anchor).Alone exec AnyEnv (AsksFresh w₀)
      (fun w' q' _ => Spares w₀ fp w q w' q') w q := by
  refine Alone.bind (findCAByFingerprint_alone _) ?_ fun w' q' e h => .of_same h.1 h.2.1
  intro w₁ q₁ known h₁
  have hsame₁ : Spares w₀ fp w q w₁ q₁ := .of_same h₁.1 h₁.2.1
  cases known with
  | ok c => exact alone_pure hsame₁
  | error err =>
    have habsent := h₁.2.2 err rfl
    by_cases hca : anchor.isCA = false
    · show Alone _ _ _ _ (if anchor.isCA = false then pure () else _) _ _
      rw [if_pos hca]
      exact alone_pure hsame₁
    · show Alone _ _ _ _ (if anchor.isCA = false then pure () else _) _ _
      rw [if_neg hca]
      refine still_bind (findIssuerID_uses anchor) ?_
        fun w' q' e hw hq => hsame₁.trans (.of_same hw hq)
      intro w₂ q₂ parentID hw₂ hq₂
      have hsame₂ : Spares w₀ fp w q w₂ q₂ := hsame₁.trans (.of_same hw₂ hq₂)
      generalize (if anchor.subject.commonName = "" then "Imported anchor"
        else anchor.subject.commonName) = name
      refine still_bind (uniqueName_uses name) ?_
        fun w' q' e hw hq => hsame₂.trans (.of_same hw hq)
      intro w₃ q₃ unique hw₃ hq₃
      have hsame₃ : Spares w₀ fp w q w₃ q₃ := hsame₂.trans (.of_same hw₃ hq₃)
      refine still_bind (uniqueSlug_uses name) ?_
        fun w' q' e hw hq => hsame₃.trans (.of_same hw hq)
      intro w₄ q₄ slug hw₄ hq₄
      have hcas : w₄.ca.cas = w₁.ca.cas := hw₄.trans (hw₃.trans hw₂)
      have hq : q₁ <+: q₄ := hq₂.trans (hq₃.trans hq₄)
      have hsame₄ : Spares w₀ fp w q w₄ q₄ := hsame₁.trans (.of_same hcas hq)
      refine Alone.bind (m := fun w' q' _ => Spares w₀ fp w q w' q') ?_ ?_
        fun _ _ _ h => h
      · have hcreate := createCA_alone w₀ (w := w₄) (q := q₄)
          (c := Ca.importedRecord anchor unique slug none (Pki.describe anchor).keyType parentID)
        refine Alone.mapResult (Alone.mono ?_ (hcreate ?_))
        · intro w' q' r h
          exact hsame₄.trans (h fp fun heq => hca (hne heq))
        · intro hclear _ d hd
          rw [hcas] at hd
          exact habsent (hclear.before hq) d hd
      · intro w₅ q₅ _ h₅
        refine Alone.mono ?_ (still_alone (audit_uses s _ _ _ _))
        intro w' q' r h
        exact h₅.trans (.of_same h.1 h.2)

/-- A chain without an authority of that fingerprint. -/
theorem importAnchors_alone (actor : String) {anchors : List X509} (fp : Fingerprint)
    (hne : ∀ a ∈ anchors, fingerprintSHA256 a = fp → a.isCA = false) :
    (s.importAnchors actor anchors).Alone exec AnyEnv (AsksFresh w₀)
      (fun w' q' _ => Spares w₀ fp w q w' q') w q := by
  induction anchors generalizing w q with
  | nil => exact alone_pure (.of_same rfl (List.prefix_refl q))
  | cons anchor rest ih =>
    refine Alone.bind (importAnchor_alone s actor (hne anchor List.mem_cons_self)) ?_
      fun _ _ _ h => h
    intro w₁ q₁ _ h₁
    refine Alone.mono ?_ (ih fun a ha => hne a (List.mem_cons_of_mem anchor ha))
    intro w' q' r h
    exact h₁.trans h

omit [Go.Runtime] in
theorem LinksApart.of_same {w' : World} {cert : X509} {chainPEM : PemText}
    (h : LinksApart w cert chainPEM) (hw : w'.ca.cas = w.ca.cas) :
    LinksApart w' cert chainPEM := by
  unfold LinksApart HasIssuer
  rw [hw]
  exact h

/-- **The issuer of a certificate**: a chain that does not bring the certificate in leaves it where
it was. -/
theorem linkIssuer_alone {cert : X509} {chainPEM : PemText} (actor : String)
    (happly : LinksApart w cert chainPEM) :
    (s.linkIssuer cert chainPEM actor).Alone exec AnyEnv (AsksFresh w₀)
      (fun w' q' _ => Spares w₀ (some cert) w q w' q') w q := by
  unfold Ca.Service.linkIssuer
  by_cases hself : isSelfSigned cert = true
  · rw [if_pos hself]
    exact alone_pure (.of_same rfl (List.prefix_refl q))
  · rw [if_neg hself]
    refine Alone.bind (findIssuerID_alone cert) ?_ fun w' q' e h => .of_same h.1 h.2.1
    intro w₁ q₁ stored h₁
    have hsame₁ : Spares w₀ (some cert) w q w₁ q₁ := .of_same h₁.1 h₁.2.1
    cases stored with
    | some id => exact alone_pure hsame₁
    | none =>
      by_cases hblank : chainPEM.blank = true
      · show Alone _ _ _ _ (if chainPEM.blank = true then pure none else _) _ _
        rw [if_pos hblank]
        exact alone_pure hsame₁
      · show Alone _ _ _ _ (if chainPEM.blank = true then pure none else _) _ _
        rw [if_neg hblank]
        refine alone_ofExcept_bind ?_ fun _ _ => hsame₁
        intro chain hmapped
        have hparse : parseCertChainPEM chainPEM = .ok chain := by
          cases hchain : parseCertChainPEM chainPEM with
          | error e =>
            rw [hchain] at hmapped
            cases hmapped
          | ok chain' =>
            rw [hchain] at hmapped
            cases hmapped
            rfl
        have himport (fp : Fingerprint)
            (hne : ∀ a ∈ chain, fingerprintSHA256 a = fp → a.isCA = false) :
            (s.importAnchors actor chain.reverse >>= fun _ => Ca.findIssuerID cert).Alone exec
              AnyEnv (AsksFresh w₀) (fun w' q' _ => Spares w₀ fp w₁ q₁ w' q') w₁ q₁ := by
          refine Alone.bind (importAnchors_alone s actor fp ?_) ?_ fun _ _ _ h => h
          · intro a ha
            exact hne a (List.mem_reverse.mp ha)
          · intro w₂ q₂ _ h₂
            refine Alone.mono ?_ (still_alone (findIssuerID_uses cert))
            intro w' q' r h
            exact h₂.trans (.of_same h.1 h.2)
        rcases happly with hself' | hissuer | hchain
        · exact absurd hself' hself
        · refine Alone.mono ?_ (himport none fun _ _ h => nomatch h)
          intro w' q' r h
          refine ⟨hsame₁.1.trans h.1, fun _ hclear => ?_⟩
          exact absurd rfl (h₁.2.2 hissuer (hclear.before h.1))
        · refine Alone.mono ?_ (himport (some cert) ?_)
          · intro w' q' r h
            exact hsame₁.trans h
          · intro a ha heq
            obtain rfl : a = cert := Option.some.inj heq
            exact hchain chain hparse ha

/-! ## The calls that store an authority -/

/-- **ImportCA** stores its certificate once, if the chain does not bring it in. -/
theorem importCA_alone {i : Ca.ImportCAInput} (hbrings : BringsApart w (.importCA i)) :
    (s.importCA i).Alone exec AnyEnv (AsksFresh w₀) (fun _ _ _ => True) w q := by
  refine alone_failIf_bind (fun _ => ?_) fun _ => trivial
  refine alone_ofExcept_bind ?_ fun _ _ => trivial
  rintro ⟨cert, chainPEM⟩ hlead
  have hapart := hbrings cert chainPEM hlead
  refine still_bind (validateNow_uses cert) ?_ fun _ _ _ _ _ => trivial
  intro w₁ q₁ _ hw₁ hq₁
  refine Alone.bind (findCAByFingerprint_alone _) ?_ fun _ _ _ _ => trivial
  intro w₂ q₂ existing h₂
  refine alone_ofExcept_bind ?_ fun _ _ => trivial
  intro _ hexisting
  have habsent : Clear w₀ q₂ → Absent (some cert) w₂ := by
    cases existing with
    | ok c => cases hexisting
    | error e => exact h₂.2.2 e rfl
  refine alone_ofExcept_bind ?_ fun _ _ => trivial
  intro key _
  have hapart₂ : LinksApart w₂ cert chainPEM := hapart.of_same (h₂.1.trans hw₁)
  have hlink : (s.linkIssuer cert chainPEM i.actor).Alone exec AnyEnv (AsksFresh w₀) _ w₂ q₂ :=
    linkIssuer_alone s i.actor hapart₂
  refine hlink.bind ?_ fun _ _ _ _ => trivial
  intro w₃ q₃ parentID h₃
  dsimp only
  generalize (if Go.trimSpace i.name ≠ "" then Go.trimSpace i.name
    else if cert.subject.commonName ≠ "" then cert.subject.commonName else "Imported CA") = name
  refine still_bind (uniqueName_uses name) ?_ fun _ _ _ _ _ => trivial
  intro w₄ q₄ unique hw₄ hq₄
  refine still_bind (uniqueSlug_uses name) ?_ fun _ _ _ _ _ => trivial
  intro w₅ q₅ slug hw₅ hq₅
  let record := Ca.importedRecord cert unique slug key
    ((key.map fun k => Pki.keyTypeOf k.publicKey).getD (Pki.describe cert).keyType) parentID
  have hfresh : Clear w₀ q₅ → record.fingerprint.isSome = true → Absent record.fingerprint w₅ := by
    intro hclear _ d hd
    rw [hw₅, hw₄] at hd
    have hclear₃ := hclear.before (hq₄.trans hq₅)
    exact h₃.2 (habsent (hclear₃.before h₃.1)) hclear₃ d hd
  refine (createCA_alone w₀ hfresh).bind ?_ fun _ _ _ _ => trivial
  intro w₆ q₆ saved _
  refine alone_failIf_bind (fun _ => ?_) fun _ => trivial
  refine bystander_alone [.setDefaultCA] (by decide) (by decide) ?_
  refine (makeDefaultIf_uses (List.mem_singleton_self _) i.makeDefault saved).bind fun saved => ?_
  exact (audit_uses s _ _ _ _).bind fun _ => uses_pure saved

/-- **CompleteSubordinate** completes a row with a certificate that is not there. -/
theorem completeSubordinate_alone {i : Ca.CompleteSubordinateInput}
    (hbrings : BringsApart w (.completeSubordinate i)) :
    (s.completeSubordinate i).Alone exec AnyEnv (AsksFresh w₀) (fun _ _ _ => True) w q := by
  refine still_bind ((getCAByRef_uses i.caRef).mapError _) ?_ fun _ _ _ _ _ => trivial
  intro w₁ q₁ row hw₁ _
  refine alone_failIf_bind (fun _ => ?_) fun _ => trivial
  refine alone_failIf_bind (fun _ => ?_) fun _ => trivial
  refine alone_ofExcept_bind ?_ fun _ _ => trivial
  rintro ⟨cert, chainPEM⟩ hmapped
  have hlead : Ca.leadCertificate i.certPEM i.chainPEM = .ok (cert, chainPEM) := by
    cases hlead : Ca.leadCertificate i.certPEM i.chainPEM with
    | error e =>
      rw [hlead] at hmapped
      cases hmapped
    | ok lead =>
      rw [hlead] at hmapped
      cases hmapped
      rfl
  obtain ⟨hapart, habsent⟩ := hbrings cert chainPEM hlead
  refine still_bind (validateNow_uses cert) ?_ fun _ _ _ _ _ => trivial
  intro w₂ q₂ _ hw₂ _
  refine alone_ofExcept_bind ?_ fun _ _ => trivial
  intro key _
  refine alone_ofExcept_bind ?_ fun _ _ => trivial
  intro _ _
  have hcas₂ : w₂.ca.cas = w.ca.cas := hw₂.trans hw₁
  have habsent₂ : Absent (some cert) w₂ := by
    intro d hd
    rw [hcas₂] at hd
    exact habsent d hd
  have hlink : (s.linkIssuer cert chainPEM i.actor).Alone exec AnyEnv (AsksFresh w₀) _ w₂ q₂ :=
    linkIssuer_alone s i.actor (hapart.of_same hcas₂)
  refine hlink.bind ?_ fun _ _ _ _ => trivial
  intro w₃ q₃ parentID h₃
  refine Alone.bind (completeCA_alone ?_) ?_ fun _ _ _ _ => trivial
  · intro hclear _
    exact h₃.2 habsent₂ hclear
  · intro w₄ q₄ _ _
    refine bystander_alone [.setDefaultCA] (by decide) (by decide) ?_
    have hrest : (do
        s.audit i.actor "ca.completed" row.name ("serial=" ++ Pki.serialHex cert.serialNumber ++
          " issuer=" ++ Go.quote (Pki.describe cert).issuer ++ " valid_until=" ++
          cert.notAfter.date)
        getCA row.id).Uses (Within [.setDefaultCA]) :=
      (audit_uses s _ _ _ _).bind fun _ => getCA_uses row.id
    have hdefault : (Store.setDefaultCA row.id).Uses (Within [.setDefaultCA]) :=
      ca_uses (List.mem_singleton_self _)
    exact uses_ite (fun _ => hdefault.bind fun _ => hrest) fun _ => hrest

/-- A certificate that goca makes is not there. -/
theorem pkiCreateCA_alone (hw : w.ca.cas = w₀.ca.cas) (p : Pki.CAParams) :
    (Pki.createCA p).Alone exec AnyEnv (AsksFresh w₀)
      (fun w' q' r => w'.ca.cas = w.ca.cas ∧ q <+: q' ∧ ∀ res, r = .ok res → Clear w₀ q' →
        Absent (some res.certificate) w') w q := by
  refine alone_ofExcept_bind ?_ fun _ _ => ⟨rfl, List.prefix_refl q, fun _ h => nomatch h⟩
  intro _ _
  refine still_bind ((generateKey_uses p.keyType).mapError _) ?_
    fun _ _ _ hw hq => ⟨hw, hq, fun _ h => nomatch h⟩
  intro w₁ q₁ key hw₁ hq₁
  refine Alone.bind (newSerial_alone (hw₁.trans hw)) ?_
    fun _ _ _ h => ⟨h.1.trans hw₁, hq₁.trans h.2.1, fun _ h => nomatch h⟩
  intro w₂ q₂ serial h₂
  have hcas₂ : w₂.ca.cas = w.ca.cas := h₂.1.trans hw₁
  have hq₂ : q <+: q₂ := hq₁.trans h₂.2.1
  refine still_bind now_uses ?_
    fun _ _ _ hw hq => ⟨hw.trans hcas₂, hq₂.trans hq, fun _ h => nomatch h⟩
  intro w₃ q₃ t hw₃ hq₃
  refine alone_ofExcept_bind ?_
    fun _ _ => ⟨hw₃.trans hcas₂, hq₂.trans hq₃, fun _ h => nomatch h⟩
  intro _ _
  refine Alone.bind (m := fun w' q' r => w'.ca.cas = w₃.ca.cas ∧ q₃ <+: q' ∧
    ∀ c, r = .ok c → c.serialNumber = serial) ?_ ?_ ?_
  · refine Alone.mapResult (Alone.mono ?_ (signTemplate_alone
      (p.template key.publicKey serial t) (p.parent.map Prod.fst) key.publicKey
      ((p.parent.map Prod.snd).getD key)))
    intro w' q' r h
    refine ⟨h.1, h.2.1, ?_⟩
    intro c hc
    cases r with
    | error e => cases hc
    | ok c' =>
      cases hc
      exact h.2.2 c rfl
  · intro w₄ q₄ cert h₄
    refine alone_pure ⟨h₄.1.trans (hw₃.trans hcas₂), (hq₂.trans hq₃).trans h₄.2.1, ?_⟩
    intro res hres hclear d hd heq
    cases hres
    rw [h₄.1, hw₃] at hd
    have hclear₂ : Clear w₀ q₂ := hclear.before (hq₃.trans h₄.2.1)
    exact h₂.2.2 serial rfl hclear₂ d hd cert heq (h₄.2.2 cert rfl)
  · intro _ _ _ h
    exact ⟨h.1.trans (hw₃.trans hcas₂), (hq₂.trans hq₃).trans h.2.1, fun _ h => nomatch h⟩

/-- **CreateCA** stores a certificate with a fresh serial number. -/
theorem serviceCreateCA_alone (hw : w.ca.cas = w₀.ca.cas) (i : Ca.CreateCAInput) :
    (s.createCA i).Alone exec AnyEnv (AsksFresh w₀) (fun _ _ _ => True) w q := by
  refine alone_failIf_bind (fun _ => ?_) fun _ => trivial
  refine alone_ofExcept_bind ?_ fun _ _ => trivial
  intro _ _
  refine alone_ofExcept_bind ?_ fun _ _ => trivial
  intro kt _
  refine still_bind (loadParent_uses i.parentRef) ?_ fun _ _ _ _ _ => trivial
  intro w₁ q₁ parent hw₁ hq₁
  refine Alone.bind (pkiCreateCA_alone (hw₁.trans hw) _) ?_ fun _ _ _ _ => trivial
  intro w₂ q₂ res h₂
  generalize (if Go.trimSpace i.name = "" then i.subject.commonName
    else Go.trimSpace i.name) = name
  refine still_bind (uniqueSlug_uses name) ?_ fun _ _ _ _ _ => trivial
  intro w₃ q₃ slug hw₃ hq₃
  have hfresh : Clear w₀ q₃ → (i.record name slug parent res).fingerprint.isSome = true →
      Absent (i.record name slug parent res).fingerprint w₃ := by
    intro hclear _ d hd
    rw [hw₃] at hd
    exact h₂.2.2 res rfl (hclear.before hq₃) d hd
  refine (createCA_alone w₀ hfresh).bind ?_ fun _ _ _ _ => trivial
  intro w₄ q₄ saved _
  refine bystander_alone [.setDefaultCA] (by decide) (by decide) ?_
  refine (makeDefaultIf_uses (List.mem_singleton_self _) i.makeDefault saved).bind fun saved => ?_
  exact (audit_uses s _ _ _ _).bind fun _ => uses_pure saved

/-- **CreateSubordinateCSR** stores a row without a certificate. -/
theorem createSubordinateCSR_alone (i : Ca.SubordinateCSRInput) :
    (s.createSubordinateCSR i).Alone exec AnyEnv (AsksFresh w₀) (fun _ _ _ => True) w q := by
  refine alone_ofExcept_bind ?_ fun _ _ => trivial
  intro _ _
  refine alone_ofExcept_bind ?_ fun _ _ => trivial
  intro kt _
  have hparent : (Ca.subordinateParent i.parentRef).Uses (Within [.signCertificate]) := by
    refine uses_ite (fun _ => ?_) fun _ => uses_pure none
    exact ((getCAByRef_uses _).mapError _).bind fun parent => uses_pure _
  refine still_bind hparent ?_ fun _ _ _ _ _ => trivial
  intro w₁ q₁ parentID _ _
  refine still_bind (createSubordinateCSR_uses i.subject kt) ?_ fun _ _ _ _ _ => trivial
  rintro w₂ q₂ ⟨key, csr⟩ _ _
  dsimp only
  generalize (if Go.trimSpace i.name = "" then i.subject.commonName
    else Go.trimSpace i.name) = name
  refine still_bind (uniqueSlug_uses name) ?_ fun _ _ _ _ _ => trivial
  intro w₃ q₃ slug _ _
  have hcreate := createCA_alone w₀ (w := w₃) (q := q₃)
    (c := i.record name slug kt key parentID) fun _ h => nomatch h
  refine hcreate.bind ?_ fun _ _ _ _ => trivial
  intro w₄ q₄ saved _
  refine bystander_alone [] (by decide) (by decide) ?_
  exact (audit_uses s _ _ _ _).bind fun _ => uses_pure _

end Walk

/-! ## The runs -/

section Run

variable [Go.Runtime] {w : World}

theorem replying_alone {ε α : Type} {err : ε → Reply} {ok : α → Reply} {x : Handler ε α}
    (hx : x.Alone exec AnyEnv (AsksFresh w) (fun _ _ _ => True) w []) :
    (replying err ok x).Alone exec AnyEnv (AsksFresh w) (fun _ _ _ => True) w [] := by
  refine Prog.Alone.bind hx ?_
  intro w' q' r _
  cases r <;> exact trivial

attribute [local irreducible] Prog.Alone

/-- **A call** that brings nothing known stores nothing known, as long as it is kept clear. -/
theorem serve_alone {c : Call} (hc : BringsApart w c.request) :
    c.serve.Alone exec AnyEnv (AsksFresh w) (fun _ _ _ => True) w [] := by
  obtain ⟨replica, request⟩ := c
  by_cases hstores : .insertCA ∈ request.effects ∨ .completeCA ∈ request.effects
  · cases request with
    | createCA i => exact replying_alone (serviceCreateCA_alone _ rfl i)
    | createSubordinateCSR i => exact replying_alone (createSubordinateCSR_alone _ i)
    | completeSubordinate i => exact replying_alone (completeSubordinate_alone _ hc)
    | importCA i => exact replying_alone (importCA_alone _ hc)
    | _ => simp [Request.effects] at hstores
  · rw [not_or] at hstores
    exact bystander_prog_alone hstores.1 hstores.2 (serve_uses ⟨replica, request⟩)

/-- A call that stores nothing twice keeps the fingerprints apart, wherever it stops. -/
theorem unique_alone {c : Call} {es : List Env} (hc : StoresOnce w c es)
    (hw : UniqueFingerprints w.ca.cas) : UniqueFingerprints (alone w c es).world.ca.cas := by
  have hclear := hc.told
  induction es using List.reverseRecOn with
  | nil => exact hw
  | append_singleton es e ih =>
    rw [alone_snoc] at hclear ⊢
    rcases Pool.step_cases exec (alone w c es) 0 e with hs | ⟨s, k, x, w', hget, hx, hs⟩
    · rw [hs] at hclear ⊢
      exact ih ⟨hc.brings, hclear⟩ hclear
    · rw [hs] at hclear ⊢
      have hhistory : ∀ y ∈ Interleave.own 0 (alone w c es).history, keepsClear w y = true := by
        intro y hy
        refine hclear y ?_
        rw [Interleave.own_snoc_self]
        exact List.mem_append_left _ hy
      have hfresh : FreshPrint (alone w c es).world s :=
        (serve_alone hc.brings).next (fun _ _ => trivial)
          (Pool.next?_eq_some.mpr ⟨k, hget⟩) hhistory
      exact unique_step hx hfresh (ih ⟨hc.brings, hhistory⟩ hhistory)

/-- **An imported certificate is stored once**, in every database that calls reach one after the
other, as long as every call keeps clear. -/
theorem reached_unique {w₀ : World} (h₀ : UniqueFingerprints w₀.ca.cas)
    (h : Reached StoresOnce w₀ w) : UniqueFingerprints w.ca.cas := by
  induction h with
  | start => exact h₀
  | call h c es hc ih => exact unique_alone hc ih

end Run

/-! ## One certificate twice -/

open Samples

/-- The certificate of a subordinate whose issuer is not stored. -/
def subordinateCert : X509 :=
  { rootCert with
    serialNumber := 2
    subject := { commonName := "Sub" }
    subjectKeyId := [2]
    publicKey := ⟨2, .ecP256⟩
    digest := "02" }

/-- The text of one certificate. -/
def pemOf (c : X509) : PemText := PemText.none.append c

/-- An import of the certificate that repeats it in its chain. -/
def repeatedImport : Call :=
  ⟨replica, .importCA { certPEM := pemOf subordinateCert, chainPEM := pemOf subordinateCert }⟩

/-- An import of a root. -/
def rootImport : Call := ⟨replica, .importCA { certPEM := pemOf rootCert }⟩

/-- Moves without a fault. -/
def calmly (n : Nat) : List Env := List.replicate n { now := 100 }

instance (t : Table CA) : Decidable (UniqueFingerprints t) := inferInstanceAs (Decidable
  (∀ c ∈ t.rows, ∀ d ∈ t.rows, c.fingerprint.isSome = true → c.fingerprint = d.fingerprint →
    c = d))

/-- The first import stores its certificate as an anchor of its own chain, and again as itself. -/
theorem repeated_twice : ∃ w, @Reached Go.asciiRuntime (fun _ _ _ => True) (.empty .empty) w ∧
    ¬ UniqueFingerprints w.ca.cas := by
  let _ := Go.asciiRuntime
  refine ⟨_, .call .start repeatedImport (calmly 40) trivial, ?_⟩
  decide +kernel

/-- An import of the certificate with its issuer in the chain. -/
def chainImport : Call :=
  ⟨replica, .importCA { certPEM := pemOf subordinateCert, chainPEM := pemOf rootCert }⟩

/-- The database behind that import. -/
def behindChain : World :=
  (@alone Go.asciiRuntime (.empty .empty) chainImport (calmly 40)).world

/-- A chain brings its root in, and an import of the root stores it no second time. -/
theorem chain_once :
    UniqueFingerprints (@alone Go.asciiRuntime behindChain rootImport (calmly 40)).world.ca.cas ∧
      (@alone Go.asciiRuntime behindChain rootImport (calmly 40)).world.ca.cas.rows.map
        (·.fingerprint) = [some rootCert, some subordinateCert] := by
  let _ := Go.asciiRuntime
  have hapart : BringsApart (.empty .empty) chainImport.request := by
    intro cert chainPEM hlead
    cases hlead
    refine .inr (.inr fun chain hchain hmem => ?_)
    cases hchain
    exact absurd hmem (by decide +kernel)
  have htold : ∀ x ∈ Interleave.own 0 (alone (.empty .empty) chainImport (calmly 40)).history,
      keepsClear (.empty .empty) x = true := by decide +kernel
  have hroot : BringsApart behindChain rootImport.request := by
    intro cert chainPEM hlead
    cases hlead
    exact .inl (by decide +kernel)
  have hrootTold : ∀ x ∈ Interleave.own 0 (alone behindChain rootImport (calmly 40)).history,
      keepsClear behindChain x = true := by decide +kernel
  have hreached : Reached StoresOnce (.empty .empty) behindChain :=
    .call .start chainImport (calmly 40) ⟨hapart, htold⟩
  refine ⟨?_, by decide +kernel⟩
  exact reached_unique (by decide) (.call hreached rootImport (calmly 40) ⟨hroot, hrootTold⟩)

end Goca
