import Mathlib.Tactic.Linarith
import Goca.Laws.Returned
import Goca.Laws.Samples

/-!
# A certificate inside the validity of its issuer

A signed certificate begins five minutes before the time of the signature and ends some days after
it. Both `sign` and `createCA` compare its end with the issuer's, and so does the check that an
imported authority goes through; no one compares a beginning. An authority that was created here is
itself back-dated by five minutes, but a certificate from outside may begin where it likes. The days
are added in 64 bits, where a large number of them can lead back into the past.
-/

set_option autoImplicit false

namespace Goca.Pki

open Go (Time)
open Goca.Store (World exec)
open Interleave (Act Prog)

/-- A certificate is valid for some time, and only while its issuer is. -/
structure Nested (issuer c : X509) : Prop where
  begins : issuer.notBefore ≤ c.notBefore
  ends : c.notAfter ≤ issuer.notAfter
  lasts : c.notBefore < c.notAfter

/-! ## Days in 64 bits -/

/-- The seconds of so many days, as a signed 64-bit integer. -/
def daySeconds (days : Int) : Int := (days * 86400).bmod 18446744073709551616

/-- What fits into 64 bits stays as it is. -/
theorem bmod_of_fits {x : Int} (hlow : -9223372036854775808 ≤ x) (hhigh : x < 9223372036854775808) :
    x.bmod 18446744073709551616 = x := Int.bmod_eq_of_le hlow hhigh

/-- Adding days whose end can be encoded adds their seconds. -/
theorem addDays_eq {t : Time} {days : Int} (hpos : 0 < t)
    (ht : encodableTime (t - 300) = true) (h : encodableTime (t.addDays days) = true) :
    t.addDays days = t + daySeconds days := by
  have hsum : t.addDays days = (t + daySeconds days).bmod 18446744073709551616 := by
    unfold Time.addDays daySeconds
    rw [Int.add_bmod_bmod]
  have hlow : -(9223372036854775808 : Int) ≤ daySeconds days := Int.le_bmod (by decide)
  have hhigh : daySeconds days < 9223372036854775808 := Int.bmod_lt (by decide)
  unfold encodableTime at ht h
  rw [Bool.and_eq_true, decide_eq_true_eq, decide_eq_true_eq] at ht h
  rw [hsum] at h ⊢
  generalize daySeconds days = s at hlow hhigh h
  by_cases hfits : t + s < 9223372036854775808
  · exact bmod_of_fits (by linarith) hfits
  · -- A sum past the last second comes out before the year 0.
    have hwrapped : (t + s).bmod 18446744073709551616 = t + s - 18446744073709551616 := by
      rw [← Int.sub_bmod_right]
      exact bmod_of_fits (x := t + s - 18446744073709551616) (by linarith) (by linarith)
    rw [hwrapped] at h
    linarith

/-- Days that do not fill 64 bits last as long as they say. -/
theorem daySeconds_eq {days : Int} (hpos : 0 < days) (h : days ≤ 106751991167300) :
    daySeconds days = days * 86400 := bmod_of_fits (by omega) (by omega)

section

variable [Go.Runtime]

/-! ## What a signature is nested by -/

/-- The days a CA certificate is signed for. -/
def CAParams.lifetime (p : CAParams) : Int := if p.days ≤ 0 then 3650 else p.days

omit [Go.Runtime] in
/-- A certificate of a time and of some days, which ends no later than its issuer, is nested when
the issuer is five minutes older than that time and the days do not lead back. -/
theorem nested_iff {issuer c : X509} {t : Time} {days : Int} (hpos : 0 < t)
    (hbefore : c.notBefore = t - 300) (hafter : c.notAfter = t.addDays days)
    (hencodable : encodableTime c.notBefore = true ∧ encodableTime c.notAfter = true)
    (hcapped : c.notAfter ≤ issuer.notAfter) :
    Nested issuer c ↔ issuer.notBefore ≤ t - 300 ∧ -300 < daySeconds days := by
  rw [hbefore, hafter] at hencodable
  have hsum := addDays_eq hpos hencodable.1 hencodable.2
  constructor
  · intro h
    have hbegins := h.begins
    have hlasts := h.lasts
    rw [hbefore] at hbegins hlasts
    rw [hafter, hsum] at hlasts
    exact ⟨hbegins, by linarith⟩
  · rintro ⟨hbegins, hforward⟩
    refine ⟨?_, hcapped, ?_⟩
    · rw [hbefore]
      exact hbegins
    · rw [hbefore, hafter, hsum]
      linarith

/-- A signature of `sign` is nested by its time and its days. -/
theorem SignedAt.nested_iff {p : SignParams} {t : Time} {c : X509} (h : SignedAt p t c) :
    Nested p.issuer c ↔ p.issuer.notBefore ≤ t - 300 ∧ -300 < daySeconds p.lifetime := by
  obtain ⟨serial, digest, hc⟩ := h.signature
  have hencodable := x509CreateCertificate_encodable hc
  obtain ⟨-, -, hbefore, hafter, -⟩ := x509CreateCertificate_ok hc
  rw [← hbefore, ← hafter] at hencodable
  rw [template_notBefore] at hbefore
  rw [template_notAfter] at hafter
  refine Pki.nested_iff h.time hbefore hafter hencodable ?_
  rw [hafter]
  exact not_lt.mp (of_decide_eq_false h.capped)

/-- A signature of `createCA` under a parent is nested by its time and its days. -/
theorem CreatedAt.nested_iff {p : CAParams} {parent : X509} {key k : PrivateKey} {t : Time}
    {c : X509} (hp : p.parent = some (parent, key)) (h : CreatedAt p t k c) :
    Nested parent c ↔ parent.notBefore ≤ t - 300 ∧ -300 < daySeconds p.lifetime := by
  obtain ⟨serial, digest, hfits, hc⟩ := h.fits
  have hencodable := x509CreateCertificate_encodable hc
  obtain ⟨-, -, hbefore, hafter, -⟩ := x509CreateCertificate_ok hc
  rw [← hbefore, ← hafter] at hencodable
  refine Pki.nested_iff h.time hbefore hafter hencodable ?_
  rw [hafter]
  rw [hp] at hfits
  unfold outruns at hfits
  dsimp only at hfits
  split at hfits
  · cases hfits
  · next hno => exact not_lt.mp fun hlt => hno (decide_eq_true hlt)

/-- An authority that was created here is old enough for every later signature. -/
theorem CreatedAt.seasoned {p : CAParams} {k : PrivateKey} {t t' : Time} {issuer : X509}
    (h : CreatedAt p t k issuer) (ht : t ≤ t') : issuer.notBefore ≤ t' - 300 := by
  obtain ⟨serial, digest, _, hc⟩ := h.fits
  obtain ⟨-, -, hbefore, -⟩ := x509CreateCertificate_ok hc
  rw [hbefore]
  show t - 300 ≤ t' - 300
  linarith

/-- **A certificate is nested in its issuer**, whether `sign` or `createCA` signed it, exactly when
the issuer's validity had begun five minutes before the time of the signature and the days, counted
in 64 bits, do not lead back past those five minutes. -/
theorem signatures_nested_iff :
    (∀ (p : SignParams) (w w' : World) (c : X509), (sign p).Returns exec w (.ok c) w' →
      ∃ t, SignedAt p t c ∧
        (Nested p.issuer c ↔ p.issuer.notBefore ≤ t - 300 ∧ -300 < daySeconds p.lifetime)) ∧
    (∀ (p : CAParams) (parent : X509) (key : PrivateKey) (w w' : World) (r : CAResult),
      p.parent = some (parent, key) → (createCA p).Returns exec w (.ok r) w' →
      ∃ t, CreatedAt p t r.privateKey r.certificate ∧
        (Nested parent r.certificate ↔
          parent.notBefore ≤ t - 300 ∧ -300 < daySeconds p.lifetime)) := by
  constructor
  · intro p w w' c h
    obtain ⟨⟨t, ht⟩, -⟩ := sign_returns h
    exact ⟨t, ht, ht.nested_iff⟩
  · intro p parent key w w' r hp h
    obtain ⟨⟨t, ht⟩, -⟩ := createCA_returns h
    exact ⟨t, ht, ht.nested_iff hp⟩

end

/-! ## An authority that has just begun, and days that wrap around -/

section

attribute [local instance] Go.asciiRuntime

/-- The root authority with another beginning. -/
def rootFrom (notBefore : Time) : X509 := { Samples.rootCert with notBefore }

/-- A request for a client certificate of some days. -/
def clientRequest (issuer : X509) (days : Int) : SignParams where
  csr := { subject := { commonName := "ops" }, sans := {}, publicKey := ⟨2, .ecP256⟩ }
  issuer := issuer
  issuerKey := Samples.rootKey
  profile := .client
  days := days
  sanOverride := none
  subjectOverride := none

/-- The certificate that is signed for it at time 100000. -/
def clientCert (notAfter : Time) : X509 where
  version := 3
  serialNumber := 5
  subject := { commonName := "ops" }
  issuer := { commonName := "Root" }
  notBefore := 99700
  notAfter := notAfter
  keyUsage := Profile.client.usages.1
  extKeyUsage := Profile.client.usages.2
  basicConstraintsValid := true
  isCA := false
  maxPathLen := -1
  maxPathLenZero := false
  sans := {}
  subjectKeyId := [2]
  authorityKeyId := [1]
  publicKey := ⟨2, .ecP256⟩
  signedBy := Samples.rootKey.publicKey
  digest := "05"

theorem returns_clientCert {issuer : X509} {days notAfter : Int}
    (hca : issuer.isCA = true) (hlive : Time.after 100000 issuer.notAfter = false)
    (hfits : (Time.addDays 100000 (clientRequest issuer days).lifetime).after issuer.notAfter =
      false)
    (hc : x509CreateCertificate ((clientRequest issuer days).template 5 100000
      (Time.addDays 100000 (clientRequest issuer days).lifetime)) (some issuer) ⟨2, .ecP256⟩
      Samples.rootKey "05" = .ok (clientCert notAfter)) :
    (sign (clientRequest issuer days)).Returns exec (World.empty .empty) (.ok (clientCert notAfter))
      (World.empty .empty) :=
  returns_sign 100000 5 "05" (by decide) hca hlive (by decide) hfits hc

/-- Ninety days under the root authority are nested by what the theorem says. -/
theorem ninety_days_nested : ∃ t, SignedAt (clientRequest (rootFrom 0) 90) t (clientCert 7876000) ∧
    (Nested (rootFrom 0) (clientCert 7876000) ↔
      (rootFrom 0).notBefore ≤ t - 300 ∧ -300 < daySeconds 90) :=
  signatures_nested_iff.1 (clientRequest (rootFrom 0) 90) (World.empty .empty) (World.empty .empty)
    (clientCert 7876000)
    (returns_clientCert rfl (by decide +kernel) (by decide +kernel) (by decide +kernel))

/-- An authority that began a minute ago passes the check of an import, and the certificate it signs
begins before it does. Under an old authority, 2 ^ 57 - 1 days end a day before the signature. -/
theorem begins_before_issuer :
    (validateCACertificate 100000 (rootFrom 99940) = .ok () ∧
      (sign (clientRequest (rootFrom 99940) 90)).Returns exec (World.empty .empty)
        (.ok (clientCert 7876000)) (World.empty .empty) ∧
      ¬ Nested (rootFrom 99940) (clientCert 7876000)) ∧
    ((sign (clientRequest (rootFrom 0) (2 ^ 57 - 1))).Returns exec (World.empty .empty)
        (.ok (clientCert 13600)) (World.empty .empty) ∧
      ¬ Nested (rootFrom 0) (clientCert 13600)) := by
  refine ⟨⟨by decide +kernel, ?_, fun h => ?_⟩, ?_, fun h => ?_⟩
  · exact returns_clientCert rfl (by decide +kernel) (by decide +kernel) (by decide +kernel)
  · exact absurd h.begins (by decide)
  · exact returns_clientCert rfl (by decide +kernel) (by decide +kernel) (by decide +kernel)
  · exact absurd h.lasts (by decide)

end

end Goca.Pki
