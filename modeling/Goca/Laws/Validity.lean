import Goca.Laws.Finalize
import Goca.Laws.Nesting
import Goca.Laws.Samples

/-!
# How long an ACME certificate lasts

An order may ask for the end of its certificate. `newOrder` holds the requested end against the days
of the credential, with a minute of slack; `finalize` turns what is left until then into days,
rounded up and at least one, and `issue` counts them from the time of its signature. Rounded up, the
minute of slack is a day. And what is left until then is a `Duration`, which ends at 292 years.

- `finalize_dated`: every certificate that `finalize` asks for lasts the days of the order and the
  credential that it read, from a time that it read.
- `validity_capped_iff`: it stays within the days of the credential, and reaches the requested end,
  exactly when the requested end is within those days when the order is finalized.
-/

set_option autoImplicit false

namespace Goca

open Go (Time)
open Goca.Store
open Goca.Pki (X509 daySeconds)
open Interleave (Act Prog Pool Trace own)
open Interleave.Act

/-! ## Days of an order -/

/-- The most days that a certificate under a credential may last. -/
def maxDays (s : Acme.Service) (cred : EABCred) : Int :=
  if cred.days ≤ 0 then s.caSvc.cfg.defaultCertDays else cred.days

/-- What wraps around comes out lower. -/
theorem bmod_le_self {x : Int} (hx : 0 ≤ x) (m : Nat) : x.bmod m ≤ x := by
  have hdiv := Int.emod_add_mul_ediv x m
  have hmul : 0 ≤ (m : Int) * (x / m) :=
    Int.mul_nonneg (Int.natCast_nonneg m) (Int.ediv_nonneg hx (Int.natCast_nonneg m))
  rw [Int.bmod_def]
  split <;> omega

/-- The days up to a requested end, of which there are between one and those of 292 years. -/
def daysUntil (r t : Int) : Int := max 1 (-(-(min (max (r - t) (-9223372036)) 9223372036) / 86400))

theorem issueDays_eq {order : AcmeOrder} {cred : EABCred} {t r : Time}
    (h : order.notAfter = some r) : Acme.issueDays order cred t = daysUntil r t := by
  unfold Acme.issueDays
  rw [h]
  rfl

theorem daysUntil_pos (r t : Int) : 0 < daysUntil r t := by
  unfold daysUntil
  omega

theorem daysUntil_le (r t : Int) : daysUntil r t ≤ 106751991167300 := by
  unfold daysUntil
  omega

/-- The days up to an end are within some days exactly when the end is, or when 292 years are. -/
theorem daysUntil_le_iff {r t days : Int} (hdays : 0 < days) :
    daysUntil r t ≤ days ↔ r ≤ t + days * 86400 ∨ 106752 ≤ days := by
  unfold daysUntil
  constructor
  · intro hle
    by_cases hlarge : 106752 ≤ days
    · exact .inr hlarge
    · exact .inl (by omega)
  · rintro (hwithin | hlarge)
    · omega
    · omega

/-- The days up to an end reach it, from any later time, exactly when it is within 292 years. -/
theorem le_daysUntil_iff {r t₁ t₂ : Int} (ht : t₁ ≤ t₂) :
    r ≤ t₂ + daysUntil r t₁ * 86400 ↔ r ≤ t₂ + 106752 * 86400 := by
  unfold daysUntil
  constructor
  · intro hle
    omega
  · intro hle
    omega

/-- `newOrder` accepts an end that stays within the days of the credential, up to the minute of
slack. -/
theorem accepted_within [Go.Runtime] {s : Acme.Service} {req : Acme.NewOrderRequest}
    {cred : EABCred} {t r : Time} (ht : 0 < t) (hdefault : 0 < s.caSvc.cfg.defaultCertDays)
    (h : s.requestedNotAfter req cred t = .ok (some r)) :
    r ≤ t + maxDays s cred * 86400 + 60 := by
  have hmax : 0 ≤ maxDays s cred := by
    unfold maxDays
    split <;> omega
  have hadd : t.addDays (maxDays s cred) ≤ t + maxDays s cred * 86400 :=
    bmod_le_self (add_nonneg ht.le (mul_nonneg hmax (by decide))) _
  unfold Acme.Service.requestedNotAfter at h
  split at h
  · cases h
  split at h
  · cases h
  split at h
  · cases h
  next t' _ =>
  dsimp only at h
  by_cases hfuture : t'.after t = false
  · rw [if_pos hfuture] at h
    cases h
  · rw [if_neg hfuture, ← maxDays] at h
    by_cases hslack : t'.after (t.addDays (maxDays s cred) + 60) = true
    · rw [if_pos hslack] at h
      cases h
    · rw [if_neg hslack] at h
      obtain rfl : t' = r := Option.some.inj (Except.ok.inj h)
      have hle : t' ≤ t.addDays (maxDays s cred) + 60 := not_lt.mp fun hlt =>
        hslack (decide_eq_true hlt)
      linarith

/-! ## What a certificate of an order lasts -/

/-- What a call that finalizes an order has read: the order, the credential of its account, a time
from which it counted the days up to the requested end, and the time of its signature. -/
structure FinalizeRead (orderID : Nat) (order : AcmeOrder) (cred : EABCred) (t₁ t₂ : Time)
    (q : Trace sig) : Prop where
  found : Saw q (.acme (.selectAcmeOrder orderID)) (.ok (some order))
  holds : Holds order cred q
  counted : Saw q (.host .now) t₁
  signed : Saw q (.host .now) t₂

/-- The days of the certificate that is issued for an order at a time. -/
def finalizedDays (s : Acme.Service) (order : AcmeOrder) (cred : EABCred) (t : Time) : Int :=
  match order.notAfter with
  | none => maxDays s cred
  | some r => daysUntil r t

/-- A certificate that a call asks for to finalize an order lasts the days of the order, from a time
that the call read. -/
def Dated (c : Call) (q : Trace sig) (st : Stmt) : Prop :=
  ∀ acme orderID body tmpl parent pub priv, c = ⟨acme, .finalize orderID body⟩ →
    0 < acme.caSvc.cfg.defaultCertDays →
    st = .host (.createCertificate tmpl parent pub priv) →
    ∃ order cred t₁ t₂, FinalizeRead orderID order cred t₁ t₂ q ∧ tmpl.notBefore = t₂ - 300 ∧
      tmpl.notAfter = t₂.addDays (finalizedDays acme order cred t₁)

/-- The days that `issue` and `sign` make of the days of an order. -/
theorem lifetime_of_order {s : Acme.Service} (hdefault : 0 < s.caSvc.cfg.defaultCertDays)
    {order : AcmeOrder} {cred : EABCred} {csr : Pki.CSR} {cn : String} {t : Time}
    {p : Pki.SignParams} (h : p.days = issuanceDays s.caSvc
      (Acme.issueInput cred csr cn (Acme.issueDays order cred t))) :
    p.lifetime = finalizedDays s order cred t := by
  have hdays : issuanceDays s.caSvc (Acme.issueInput cred csr cn (Acme.issueDays order cred t)) =
      finalizedDays s order cred t := by
    unfold issuanceDays Acme.issueInput finalizedDays
    dsimp only
    cases hafter : order.notAfter with
    | none =>
      unfold Acme.issueDays
      rw [hafter]
      rfl
    | some r =>
      rw [issueDays_eq hafter, if_neg (not_le.mpr (daysUntil_pos r t))]
  have hpos : 0 < finalizedDays s order cred t := by
    unfold finalizedDays maxDays
    split
    · split <;> omega
    · exact daysUntil_pos _ t
  unfold Pki.SignParams.lifetime
  rw [h, hdays, if_neg (not_le.mpr hpos)]

section

variable [Go.Runtime]

omit [Go.Runtime] in
/-- A call that signs nothing dates nothing. -/
theorem dated_of_within {c : Call} {ks : List Effect} (h : .signCertificate ∉ ks) {q : Trace sig}
    {s : Stmt} (hs : Within ks s) : Dated c q s := by
  rintro acme orderID body tmpl p pub priv _ _ rfl
  exact absurd hs h

/-- **Every certificate of an order is dated**: by the days of the order and the credential that the
call read. -/
theorem serve_dated (c : Call) : c.serve.Traced (Dated c) (fun _ _ => True) [] := by
  obtain ⟨acme, request⟩ := c
  by_cases hrequest : ∃ orderID body, request = .finalize orderID body
  · obtain ⟨orderID, body, rfl⟩ := hrequest
    refine replying_traced (finalize_traced acme orderID body ?_ ?_ ?_ ?_ ?_)
    · exact fun q s _ hs => dated_of_within (by decide) hs
    · rintro q order csr cn _ _ _ _ _ _ _ _ _ _ _ ⟨⟩
    · rintro q order csr cn cred t row p st _ hfinal _ hholds ht hissue hsign
        _ _ _ tmpl parent pub priv ⟨⟩ hdefault rfl
      obtain ⟨serial, t', _, ht', _, hst⟩ := hsign.signature
      cases hst
      refine ⟨order, cred, t, t', ⟨hfinal.found, hholds, ht, ht'⟩, Pki.template_notBefore .., ?_⟩
      rw [Pki.template_notAfter, lifetime_of_order hdefault hissue.days]
    · rintro q order csr cn cred days n _ _ _ _ _ _ _ _ _ _ _ _ _ _ ⟨⟩
    · rintro q order csr cn n row _ _ _ _ _ _ _ _ _ _ _ _ _ ⟨⟩
  · refine (Prog.traced_any _ _).mono ?_ fun _ _ _ => trivial
    rintro q s _ acme' orderID body _ _ _ _ ⟨⟩
    exact absurd ⟨orderID, body, rfl⟩ hrequest

/-! ## Runs -/

/-- A certificate stays within the days of the credential from the time of its signature, and
reaches the end that its order asked for. -/
structure ValidityCapped (s : Acme.Service) (order : AcmeOrder) (cred : EABCred) (t : Time)
    (c : X509) : Prop where
  capped : c.notAfter ≤ t + maxDays s cred * 86400
  honoured : ∀ r, order.notAfter = some r → r ≤ c.notAfter

/-- The end that an order asks for is within the days of the credential when the days are counted,
or 292 years are, and within 292 years of the signature. -/
def EndInReach (s : Acme.Service) (order : AcmeOrder) (cred : EABCred) (t₁ t₂ : Time) : Prop :=
  ∀ r, order.notAfter = some r →
    (r ≤ t₁ + maxDays s cred * 86400 ∨ 106752 ≤ maxDays s cred) ∧ r ≤ t₂ + 106752 * 86400

omit [Go.Runtime] in
/-- What the days of an order come to. -/
theorem validityCapped_iff {s : Acme.Service} {order : AcmeOrder} {cred : EABCred} {t₁ t₂ : Time}
    {c : X509} (hdefault : 0 < s.caSvc.cfg.defaultCertDays) (hpos : 0 < t₂) (ht : t₁ ≤ t₂)
    (hbefore : c.notBefore = t₂ - 300)
    (hafter : c.notAfter = t₂.addDays (finalizedDays s order cred t₁))
    (hencodable : Pki.encodableTime c.notBefore = true ∧ Pki.encodableTime c.notAfter = true) :
    ValidityCapped s order cred t₂ c ↔ EndInReach s order cred t₁ t₂ := by
  have hmax : 0 < maxDays s cred := by
    unfold maxDays
    split <;> omega
  rw [hbefore, hafter] at hencodable
  have hsum := Pki.addDays_eq hpos hencodable.1 hencodable.2
  cases hend : order.notAfter with
  | none =>
    have hdays : finalizedDays s order cred t₁ = maxDays s cred := by
      unfold finalizedDays
      rw [hend]
    rw [hsum, hdays] at hafter
    have hcap : daySeconds (maxDays s cred) ≤ maxDays s cred * 86400 :=
      bmod_le_self (mul_nonneg hmax.le (by decide)) _
    refine ⟨fun _ r hr => ?_, fun _ => ⟨?_, fun r hr => ?_⟩⟩
    · rw [hend] at hr
      cases hr
    · rw [hafter]
      exact add_le_add_right hcap t₂
    · rw [hend] at hr
      cases hr
  | some r =>
    have hdays : finalizedDays s order cred t₁ = daysUntil r t₁ := by
      unfold finalizedDays
      rw [hend]
    have hseconds : daySeconds (daysUntil r t₁) = daysUntil r t₁ * 86400 :=
      Pki.daySeconds_eq (daysUntil_pos r t₁) (daysUntil_le r t₁)
    rw [hsum, hdays, hseconds] at hafter
    have hcapped : c.notAfter ≤ t₂ + maxDays s cred * 86400 ↔
        r ≤ t₁ + maxDays s cred * 86400 ∨ 106752 ≤ maxDays s cred := by
      rw [← daysUntil_le_iff hmax, hafter]
      exact ⟨fun h => by linarith, fun h => by linarith⟩
    have hhonoured : r ≤ c.notAfter ↔ r ≤ t₂ + 106752 * 86400 := by
      rw [hafter]
      exact le_daysUntil_iff ht
    constructor
    · intro h r' hr'
      obtain rfl : r = r' := Option.some.inj (hend.symm.trans hr')
      exact ⟨hcapped.mp h.capped, hhonoured.mp (h.honoured r hend)⟩
    · intro h
      obtain ⟨hwithin, hreach⟩ := h r hend
      refine ⟨hcapped.mpr hwithin, fun r' hr' => ?_⟩
      obtain rfl : r = r' := Option.some.inj (hend.symm.trans hr')
      exact hhonoured.mpr hreach

/-- **The validity of an ACME certificate**: in a run, whatever certificate a call gets signed to
finalize an order stays within the days of the credential and reaches the end that the order asked
for, exactly when that end is within those days at the time of finalization, and within 292
years. -/
theorem validity_capped_iff {w : World} {calls : List Call} {moves : Pool.Schedule Env} {m t : Nat}
    {e : Env} {tmpl : Pki.Template} {parent : Option X509} {pub : Pki.PublicKey}
    {priv : Pki.PrivateKey} {c : X509} {acme : Acme.Service} {orderID : Nat} {body : Acme.Body}
    (hdefault : 0 < acme.caSvc.cfg.defaultCertDays)
    (hcall : calls[t]? = some ⟨acme, .finalize orderID body⟩)
    (hasked : Pool.AskedAt exec (serving w calls) moves m t e
      (.host (.createCertificate tmpl parent pub priv)) (.ok c)) :
    ∃ order cred t₁ t₂,
      FinalizeRead orderID order cred t₁ t₂ (own t (servedUpto w calls moves m).history) ∧
      c.notBefore = t₂ - 300 ∧
      (t₁ ≤ t₂ → (ValidityCapped acme order cred t₂ c ↔ EndInReach acme order cred t₁ t₂)) := by
  obtain ⟨call, hcall', hdated⟩ := allowed_upto serve_dated hasked.next
  obtain rfl : call = ⟨acme, .finalize orderID body⟩ :=
    Option.some.inj (hcall'.symm.trans hcall)
  obtain ⟨order, cred, t₁, t₂, hread, hbefore, hafter⟩ :=
    hdated acme orderID body tmpl parent pub priv rfl hdefault rfl
  have hm : m ≤ moves.length := (List.getElem?_eq_some_iff.mp hasked.move).1.le
  -- The certificate is what the encoding makes of the template.
  obtain ⟨_, hhost⟩ := exec_host hasked.exec
  have hcert := Fault.answer_ok (Prod.mk.inj (Option.some.inj hhost)).1
  have hencodable := Pki.x509CreateCertificate_encodable hcert
  obtain ⟨_, _, hcertBefore, hcertAfter, _⟩ := Pki.x509CreateCertificate_ok hcert
  rw [← hcertBefore, ← hcertAfter] at hencodable
  rw [← hcertBefore] at hbefore
  rw [← hcertAfter] at hafter
  -- The time of the signature was read from the clock.
  obtain ⟨i, e', _, hnow⟩ := saw_origin hm hread.signed
  obtain ⟨hpos, hclock⟩ := exec_host hnow.exec
  obtain rfl : e'.now = t₂ := (Prod.mk.inj (Option.some.inj hclock)).1
  exact ⟨order, cred, t₁, e'.now, hread, hbefore, fun ht =>
    validityCapped_iff hdefault hpos ht hbefore hafter hencodable⟩

end

/-! ## An order that is finalized within the minute -/

section

open Samples

/-- A runtime that knows one timestamp: ninety days and a minute after the time of the runs. -/
@[reducible] def springRuntime : Go.Runtime :=
  { Go.asciiRuntime with
    parseRFC3339 := fun s => if s = "0001-04-01T00:02:40Z" then some (160 + 90 * 86400) else none }

attribute [local instance] springRuntime

/-- The order with a requested end. -/
def orderUntil (r : Time) : AcmeOrder := { order with notAfter := some r }

/-- A database with this order. -/
def installationUntil (r : Time) : World :=
  let w := orderInstallation ["n0"]
  { w with acme := { w.acme with
      orders := Sql.Table.empty.insert (fun id => { orderUntil r with id }) fun _ => rfl } }

/-- A request to finalize it. -/
def finalizing : List Call := [⟨replica, .finalize 1 (finalization "n0" ["host.internal"])⟩]

/-- All moves of the request, at one time. -/
def atOnce : Pool.Schedule Env := inTurn (List.replicate 15 0)

/-- Whether a statement asks for a certificate that a check accepts. -/
def asksFor (check : X509 → Bool) : Option Stmt → Bool
  | some (.host (.createCertificate tmpl parent pub priv)) =>
    (Pki.x509CreateCertificate tmpl parent pub priv "").toOption.any check
  | _ => false

theorem asked_of_asksFor {r : Time} {check : X509 → Bool}
    (h : asksFor check ((servedUpto (installationUntil r) finalizing atOnce 14).next? 0) = true) :
    ∃ tmpl parent pub priv c, check c = true ∧
      Pool.AskedAt exec (serving (installationUntil r) finalizing) atOnce 14 0
        { now := 100, pick := 2 } (.host (.createCertificate tmpl parent pub priv)) (.ok c) := by
  unfold asksFor at h
  split at h
  · next tmpl parent pub priv hnext =>
    cases hc : Pki.x509CreateCertificate tmpl parent pub priv "" with
    | error e =>
      rw [hc] at h
      cases h
    | ok c =>
      rw [hc] at h
      have hexec (w : World) : exec { now := 100, pick := 2 } w
          (.host (.createCertificate tmpl parent pub priv)) = some (.ok c, w) := by
        unfold exec
        rw [if_pos (show (0 : Int) < 100 by decide)]
        show some (Fault.none.answer (Pki.x509CreateCertificate tmpl parent pub priv ""), _) = _
        rw [hc]
        rfl
      exact ⟨tmpl, parent, pub, priv, c, h, .of_next rfl hnext (hexec _)⟩
  · cases h

/-- An order that asks for thirty days, under a credential of ninety, is covered. -/
theorem thirty_days_covered : ∃ tmpl parent pub priv c,
    Pool.AskedAt exec (serving (installationUntil (100 + 30 * 86400)) finalizing) atOnce 14 0
      { now := 100, pick := 2 } (.host (.createCertificate tmpl parent pub priv)) (.ok c) ∧
    ∃ order cred t₁ t₂,
      FinalizeRead 1 order cred t₁ t₂
        (own 0 (servedUpto (installationUntil (100 + 30 * 86400)) finalizing atOnce 14).history) ∧
      c.notBefore = t₂ - 300 ∧
      (t₁ ≤ t₂ →
        (ValidityCapped replica order cred t₂ c ↔ EndInReach replica order cred t₁ t₂)) := by
  have hasks : asksFor (fun _ => true) ((servedUpto (installationUntil (100 + 30 * 86400))
      finalizing atOnce 14).next? 0) = true := by decide +kernel
  obtain ⟨tmpl, parent, pub, priv, c, _, hasked⟩ := asked_of_asksFor hasks
  exact ⟨tmpl, parent, pub, priv, c, hasked, validity_capped_iff (by decide) rfl hasked⟩

/-- `newOrder` accepts an end a minute past the ninety days of the credential, and finalized at
once, the certificate lasts ninety-one days. -/
theorem ninety_first_day :
    replica.requestedNotAfter { notAfter := "0001-04-01T00:02:40Z" } cred 100 =
      .ok (some (160 + 90 * 86400)) ∧
    ∃ tmpl parent pub priv c,
      Pool.AskedAt exec (serving (installationUntil (160 + 90 * 86400)) finalizing) atOnce 14 0
        { now := 100, pick := 2 } (.host (.createCertificate tmpl parent pub priv)) (.ok c) ∧
      c.notAfter = 100 + 91 * 86400 ∧
      ¬ ValidityCapped replica (orderUntil (160 + 90 * 86400)) cred 100 c := by
  have hasks : asksFor (fun c => c.notAfter == 100 + 91 * 86400)
      ((servedUpto (installationUntil (160 + 90 * 86400)) finalizing atOnce 14).next? 0) =
        true := by decide +kernel
  obtain ⟨tmpl, parent, pub, priv, c, hcheck, hasked⟩ := asked_of_asksFor hasks
  have hafter := beq_iff_eq.mp hcheck
  refine ⟨by decide +kernel, tmpl, parent, pub, priv, c, hasked, hafter, fun h => ?_⟩
  have hcapped := h.capped
  rw [hafter] at hcapped
  exact absurd hcapped (by decide)

end

end Goca
