import Goca.Store.World

/-!
# The dashboard

`Stats` counts with the conditions that `SearchCertificates` has, written a second time, and
`EffectiveStatus` decides in Go what both decide in SQL. The users are the one table of another
package that the counters need, so their number is given.
-/

set_option autoImplicit false

namespace Goca.Store

open Go (Time)

/-- `EffectiveStatus` folds expiry into the stored status. -/
def Certificate.effectiveStatus (c : Certificate) (now : Time) : String :=
  if c.status = .revoked then "revoked"
  else if now.after c.notAfter then "expired"
  else "active"

/-- What the dashboard shows of the database. -/
structure Stats where
  cas : Nat
  certificates : Nat
  active : Nat
  revoked : Nat
  expired : Nat
  expiringSoon : Nat
  users : Nat
  issuedLast30Day : Nat
  deriving Repr, DecidableEq

/-- `Stats` computes dashboard counters. -/
def CaTables.stats (t : CaTables) (users : Nat) (now : Time) : Stats where
  cas := t.cas.rows.length
  certificates := t.certificates.rows.length
  active := t.certificates.count fun c => c.status == .active && now < c.notAfter
  revoked := t.certificates.count fun c => c.status == .revoked
  expired := t.certificates.count fun c => c.status != .revoked && c.notAfter ≤ now
  expiringSoon := t.certificates.count fun c =>
    c.status == .active && now < c.notAfter && c.notAfter ≤ now.addDays 30
  users := users
  issuedLast30Day := t.certificates.count fun c => now.addDays (-30) ≤ c.createdAt

end Goca.Store
