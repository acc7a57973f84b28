import Mathlib.Algebra.Order.Ring.Int
import Goca.Lib.Returns
import Goca.Store.Ca
import Goca.Store.Step
import Goca.Pki.Sign

/-!
# What a signing call returns

`sign` and `createCA` read the clock, draw a serial and a key, and ask for one signature. Whatever
certificate comes back of such a call is the one that `x509.CreateCertificate` makes of their
template, at a time at which their checks passed.
-/

set_option autoImplicit false

namespace Goca

open Go (Time)
open Goca.Store
open Interleave (Act Sem)
open Interleave.Act

/-! ## Answers -/

/-- The database and the clock answer every statement; a source of randomness need not, and the end
of the fuel never does. -/
def Answerable : Stmt → Prop
  | .host .newSerial | .host .randomToken | .host .diverge => False
  | _ => True

/-- A run without a failing statement, in which the clock shows only such times. -/
def steady (P : Time → Bool) (e : Env) : Bool := e.fault == .none && P e.now

theorem steady_iff {P : Time → Bool} {e : Env} :
    steady P e = true ↔ e.fault = .none ∧ P e.now = true := by
  unfold steady
  rw [Bool.and_eq_true, beq_iff_eq]

/-- A query for one row succeeds where it finds one. -/
theorem row_eq_ok {α : Type} {r : Except Go.Error (Option α)} {a : α} (h : row r = .ok a) :
    r = .ok (some a) := by
  match r with
  | .ok (some b) => cases h; rfl
  | .ok none => cases h
  | .error e => cases h

section

variable [Go.Runtime] {ε : Type} {w w' : World}

/-- The clock runs past Go's zero time, so what can be answered is answered. -/
theorem answered {e : Env} {w : World} {s : Stmt} (he : 0 < e.now) (hs : Answerable s) :
    (exec e w s).isSome = true := by
  unfold exec
  rw [if_pos he]
  cases s with
  | ca s => rfl
  | acme s => rfl
  | audit => rfl
  | host s =>
    cases s with
    | newSerial => exact False.elim hs
    | randomToken => exact False.elim hs
    | diverge => exact False.elim hs
    | _ => rfl

/-- The answer of a statement over the CA tables, and the tables after it. -/
theorem ca_returns {s : CaStmt} {x : s.Res} (h : (ca s).Returns exec w (.ok x) w') :
    ∃ e, 0 < e.now ∧ (w.ca.exec e s).1 = .ok x ∧ w' = { w with ca := (w.ca.exec e s).2 } := by
  obtain ⟨e, y, v, hy, hx, rfl⟩ := h
  obtain rfl : y = .ok x := hx
  obtain ⟨hnow, hans, rfl⟩ := exec_ca hy
  obtain ⟨hdone, hw⟩ := Fault.apply_ok hans.symm
  exact ⟨e, hnow, hdone, by rw [hw]⟩

/-- A statement over the CA tables that only reads leaves the database as it is, also where it
fails. -/
theorem ca_reads {s : CaStmt} {r : Except Go.Error s.Res}
    (hs : ∀ e, (w.ca.exec e s).2 = w.ca) (h : (ca s).Returns exec w r w') : w = w' := by
  obtain ⟨e, y, v, hy, _, rfl⟩ := h
  obtain ⟨_, _, rfl⟩ := exec_ca hy
  obtain ⟨_, _, htables⟩ | ⟨_, htables, _⟩ := e.fault.apply_cases w.ca (w.ca.exec e s)
  · rw [htables]
  · rw [htables, hs]

omit [Go.Runtime] in
/-- The clock always answers, so what follows it ends as the whole does. -/
theorem returns_now_bind {sem : Sem sig Env World} {α : Type} {f : Time → Handler ε α}
    {r : Except ε α} : ((now : Handler ε Time) >>= f).Returns sem w r w' ↔
      ∃ t v, (now : Handler ε Time).Returns sem w (.ok t) v ∧ (f t).Returns sem v r w' := by
  unfold Act.Returns
  rw [run_bind, Interleave.Prog.returns_bind]
  constructor
  · rintro ⟨a, v, ⟨e, x, u, hx, rfl, rfl⟩, h⟩
    exact ⟨x, u, ⟨e, x, u, hx, rfl, rfl⟩, h⟩
  · rintro ⟨t, v, ht, h⟩
    exact ⟨.ok t, v, ht, h⟩

/-! ## Steady runs -/

variable {P : Time → Bool} {t : Time} {pick : Nat} {token : String}

/-- At a time of a steady run a statement over the CA tables is answered with what it does. -/
theorem returns_ca (pick : Nat) (token : String) {s : CaStmt} {x : s.Res} (hpos : 0 < t)
    (ht : P t = true)
    (h : (w.ca.exec { now := t, pick, token } s).1 = .ok x) :
    (ca s).Returns (Sem.under exec (steady P)) w (.ok x)
      { w with ca := (w.ca.exec { now := t, pick, token } s).2 } := by
  refine ⟨{ now := t, pick, token }, .ok x, _, ?_, rfl, rfl⟩
  refine Sem.under_eq_some.mpr ⟨steady_iff.mpr ⟨rfl, ht⟩, ?_⟩
  unfold exec
  rw [if_pos hpos, ← h]
  rfl

/-- At a time of a steady run the host answers. -/
theorem returns_host (pick : Nat) (token : String) {s : HostStmt} {x : s.Res} (hpos : 0 < t)
    (ht : P t = true)
    (h : hostExec { now := t, pick, token } w s = some (x, w')) :
    (host s : Handler ε s.Res).Returns (Sem.under exec (steady P)) w (.ok x) w' := by
  refine ⟨{ now := t, pick, token }, x, w', ?_, rfl, rfl⟩
  refine Sem.under_eq_some.mpr ⟨steady_iff.mpr ⟨rfl, ht⟩, ?_⟩
  unfold exec
  rw [if_pos hpos]
  exact h

/-- The clock shows any time of a steady run. -/
theorem returns_now (hpos : 0 < t) (ht : P t = true) :
    (now : Handler ε Time).Returns (Sem.under exec (steady P)) w (.ok t) w :=
  returns_host 0 "" hpos ht rfl

/-- In a steady run a statement over the CA tables does what it does and is answered with it. -/
theorem ca_steady {s : CaStmt} {r : Except Go.Error s.Res}
    (h : (ca s).Returns (Sem.under exec (steady P)) w r w') :
    ∃ e, P e.now = true ∧ r = (w.ca.exec e s).1 ∧ w' = { w with ca := (w.ca.exec e s).2 } := by
  obtain ⟨e, y, v, hy, hr, rfl⟩ := h
  obtain ⟨hsteady, hy⟩ := Sem.under_eq_some.mp hy
  obtain ⟨hfault, hP⟩ := steady_iff.mp hsteady
  obtain ⟨_, hans, rfl⟩ := exec_ca hy
  rw [hfault] at hans ⊢
  refine ⟨e, hP, ?_, rfl⟩
  rw [← hr, hans]
  rfl

/-- In a steady run a statement that only reads is answered and leaves the database as it is. -/
theorem read_steady {s : CaStmt} {x : Env → Except Go.Error s.Res}
    (hs : ∀ e, w.ca.exec e s = (x e, w.ca)) {r : Except Go.Error s.Res}
    (h : (ca s).Returns (Sem.under exec (steady P)) w r w') :
    w' = w ∧ ∃ e, P e.now = true ∧ r = x e := by
  obtain ⟨e, hP, hr, hw⟩ := ca_steady h
  rw [hs e] at hr hw
  exact ⟨hw, e, hP, hr⟩

/-- The times that the clock shows are those that the environment may choose. -/
theorem now_under {q : Env → Bool}
    (h : (now : Handler ε Time).Returns (Sem.under exec q) w (.ok t) w') :
    ∃ e, q e = true ∧ e.now = t := by
  obtain ⟨e, x, v, hx, heq, _⟩ := h
  obtain ⟨hq, hx⟩ := Sem.under_eq_some.mp hx
  obtain ⟨_, hclock⟩ := exec_host hx
  cases heq
  exact ⟨e, hq, (Prod.mk.inj (Option.some.inj hclock)).1⟩

/-- What can be answered is answered in a steady run. -/
theorem returns_of_answerable {α : Type} {x : Handler ε α} (hx : x.Uses Answerable)
    (hpos : 0 < t) (ht : P t = true) (w : World) :
    ∃ r w', x.Returns (Sem.under exec (steady P)) w r w' := by
  refine Interleave.Prog.Uses.returns hx ?_ w
  intro s u hs
  obtain ⟨⟨y, v⟩, hy⟩ := Option.isSome_iff_exists.mp (answered (e := { now := t }) (w := u) hpos hs)
  exact ⟨{ now := t }, y, v, Sem.under_eq_some.mpr ⟨steady_iff.mpr ⟨rfl, ht⟩, hy⟩⟩

end

end Goca

namespace Goca.Pki

open Go (Time)
open Goca.Store
open Interleave (Act Sem)
open Interleave.Act

variable [Go.Runtime] {ε α : Type} {w w' : World}

/-! ## The host -/

/-- What the host is asked it answers under some environment. -/
theorem host_returns {s : HostStmt} {x : s.Res} :
    (host s : Handler ε s.Res).Returns exec w (.ok x) w' ↔
      ∃ e, exec e w (.host s) = some (x, w') := by
  constructor
  · rintro ⟨e, y, v, hy, heq, rfl⟩
    cases heq
    exact ⟨e, hy⟩
  · rintro ⟨e, he⟩
    exact ⟨e, x, w', he, rfl, rfl⟩

theorem hostCall_returns {x : Handler Go.Error (Except Go.Error α)} {a : α} :
    (hostCall x).Returns exec w (.ok a) w' ↔ x.Returns exec w (.ok (.ok a)) w' := by
  unfold hostCall
  rw [returns_mapResult]
  constructor
  · rintro ⟨r, hr, heq⟩
    cases r with
    | ok r => subst heq; exact hr
    | error e => cases heq
  · exact fun h => ⟨_, h, rfl⟩

/-- The clock shows some time past Go's zero time. -/
theorem now_returns {t : Time} :
    (now : Handler ε Time).Returns exec w (.ok t) w' ↔ 0 < t ∧ w = w' := by
  unfold now
  rw [host_returns]
  constructor
  · rintro ⟨e, he⟩
    obtain ⟨hnow, hx⟩ := exec_host he
    cases hx
    exact ⟨hnow, rfl⟩
  · rintro ⟨ht, rfl⟩
    refine ⟨{ now := t }, ?_⟩
    unfold exec
    rw [if_pos ht]
    rfl

/-- A key is drawn of the type that is asked for. -/
theorem generateKey_returns {kt : KeyType} {k : PrivateKey} :
    (generateKey kt).Returns exec w (.ok k) w' ↔ k.publicKey.kind = kt.kind ∧ w = w' := by
  unfold generateKey
  rw [hostCall_returns, host_returns]
  constructor
  · rintro ⟨e, he⟩
    obtain ⟨-, hx⟩ := exec_host he
    obtain ⟨hk, rfl⟩ := Prod.mk.inj (Option.some.inj hx)
    have hk := Fault.answer_ok hk
    cases hk
    exact ⟨rfl, rfl⟩
  · rintro ⟨hkind, rfl⟩
    refine ⟨{ now := 1, pick := k.publicKey.id }, ?_⟩
    unfold exec
    rw [if_pos (show (0 : Int) < 1 by decide)]
    have hkey : (⟨⟨k.publicKey.id, kt.kind⟩⟩ : PrivateKey) = k := by
      rw [← hkind]
    rw [← hkey]
    rfl

/-- A serial is positive and has 128 bits at most. -/
theorem newSerial_returns {n : Nat} :
    newSerial.Returns exec w (.ok n) w' ↔ (1 ≤ n ∧ n ≤ 2 ^ 127) ∧ w = w' := by
  unfold newSerial
  rw [hostCall_returns, host_returns]
  constructor
  · rintro ⟨e, he⟩
    obtain ⟨-, hx⟩ := exec_host he
    simp only [hostExec] at hx
    split at hx
    · next hn =>
      obtain ⟨hserial, rfl⟩ := Prod.mk.inj (Option.some.inj hx)
      obtain rfl : e.pick = n := Except.ok.inj (Fault.answer_ok hserial)
      exact ⟨hn, rfl⟩
    · cases hx
  · rintro ⟨hn, rfl⟩
    refine ⟨{ now := 1, pick := n }, ?_⟩
    unfold exec
    rw [if_pos (show (0 : Int) < 1 by decide)]
    unfold hostExec
    rw [if_pos hn]
    rfl

/-- A signature comes back over the template that was handed in. -/
theorem signTemplate_returns {t : Template} {parent : Option X509} {pub : PublicKey}
    {priv : PrivateKey} {c : X509} :
    (signTemplate t parent pub priv).Returns exec w (.ok c) w' ↔
      (∃ digest, x509CreateCertificate t parent pub priv digest = .ok c) ∧ w = w' := by
  unfold signTemplate
  rw [hostCall_returns, host_returns]
  constructor
  · rintro ⟨e, he⟩
    obtain ⟨-, hx⟩ := exec_host he
    obtain ⟨hc, rfl⟩ := Prod.mk.inj (Option.some.inj hx)
    exact ⟨⟨e.token, Fault.answer_ok hc⟩, rfl⟩
  · rintro ⟨⟨digest, hc⟩, rfl⟩
    refine ⟨{ now := 1, token := digest }, ?_⟩
    unfold exec
    rw [if_pos (show (0 : Int) < 1 by decide)]
    show some (Fault.none.answer (x509CreateCertificate t parent pub priv digest), w) = _
    rw [hc]
    rfl

/-! ## Package pki -/

section

variable (p : SignParams) (serial : Nat) (t notAfter : Time)

theorem template_subject : (p.template serial t notAfter).subject = p.subject := by
  unfold SignParams.template
  split <;> rfl

theorem template_sans : (p.template serial t notAfter).sans = p.sans := by
  unfold SignParams.template
  split <;> rfl

theorem template_notBefore : (p.template serial t notAfter).notBefore = t - 300 := by
  unfold SignParams.template
  split <;> rfl

theorem template_notAfter : (p.template serial t notAfter).notAfter = notAfter := by
  unfold SignParams.template
  split <;> rfl

end

/-- The signature that `sign` gives at a time. -/
structure SignedAt (p : SignParams) (t : Time) (c : X509) : Prop where
  time : 0 < t
  issuerIsCA : p.issuer.isCA = true
  capped : (t.addDays p.lifetime).after p.issuer.notAfter = false
  signature : ∃ serial digest, x509CreateCertificate
    (p.template serial t (t.addDays p.lifetime)) (some p.issuer) p.csr.publicKey p.issuerKey
    digest = .ok c

/-- **What `sign` returns** is the signature of some time. -/
theorem sign_returns {p : SignParams} {c : X509} (h : (sign p).Returns exec w (.ok c) w') :
    (∃ t, SignedAt p t c) ∧ w = w' := by
  unfold sign at h
  obtain ⟨_, _, hca, h⟩ := returns_bind.mp h
  obtain ⟨hissuer, rfl⟩ := returns_failIf.mp hca
  obtain ⟨t₀, _, ht₀, h⟩ := returns_bind.mp h
  obtain ⟨_, rfl⟩ := now_returns.mp ht₀
  obtain ⟨_, _, hlive, h⟩ := returns_bind.mp h
  obtain ⟨_, rfl⟩ := returns_failIf.mp hlive
  obtain ⟨serial, _, hserial, h⟩ := returns_bind.mp h
  obtain ⟨_, rfl⟩ := newSerial_returns.mp hserial
  obtain ⟨t, _, ht, h⟩ := returns_bind.mp h
  obtain ⟨hpos, rfl⟩ := now_returns.mp ht
  obtain ⟨_, _, hcap, h⟩ := returns_bind.mp h
  obtain ⟨hfits, rfl⟩ := returns_failIf.mp hcap
  obtain ⟨⟨digest, hc⟩, rfl⟩ := signTemplate_returns.mp (returns_mapError.mp h)
  exact ⟨⟨t, hpos, by simpa using hissuer, Bool.eq_false_iff.mpr hfits, serial, digest, hc⟩, rfl⟩

/-- A signature of a time at which the issuer has not expired can come back, in a run that is
steady at that time. -/
theorem returns_sign_steady {P : Time → Bool} {p : SignParams} {c : X509} (t : Time) (serial : Nat)
    (digest : String) (ht : 0 < t) (hP : P t = true) (hca : p.issuer.isCA = true)
    (hlive : t.after p.issuer.notAfter = false) (hserial : 1 ≤ serial ∧ serial ≤ 2 ^ 127)
    (hfits : (t.addDays p.lifetime).after p.issuer.notAfter = false)
    (hc : x509CreateCertificate (p.template serial t (t.addDays p.lifetime)) (some p.issuer)
      p.csr.publicKey p.issuerKey digest = .ok c) :
    (sign p).Returns (Sem.under exec (steady P)) w (.ok c) w := by
  have hdrawn : newSerial.Returns (Sem.under exec (steady P)) w (.ok serial) w := by
    refine returns_mapResult.mpr ⟨.ok (.ok serial), ?_, rfl⟩
    refine returns_host serial "" ht hP ?_
    unfold hostExec
    rw [if_pos hserial]
    rfl
  have hsigned : (signTemplate (p.template serial t (t.addDays p.lifetime)) (some p.issuer)
      p.csr.publicKey p.issuerKey).Returns (Sem.under exec (steady P)) w (.ok c) w := by
    refine returns_mapResult.mpr ⟨.ok (.ok c), ?_, rfl⟩
    refine returns_host 0 digest ht hP ?_
    show some (Fault.none.answer (x509CreateCertificate _ _ _ _ digest), w) = _
    rw [hc]
    rfl
  unfold sign
  refine returns_bind.mpr ⟨(), w, returns_failIf.mpr ⟨by simpa using hca, rfl⟩, ?_⟩
  refine returns_bind.mpr ⟨t, w, returns_now ht hP, ?_⟩
  refine returns_bind.mpr ⟨(), w, returns_failIf.mpr ⟨by simpa using hlive, rfl⟩, ?_⟩
  refine returns_bind.mpr ⟨serial, w, hdrawn, ?_⟩
  refine returns_bind.mpr ⟨t, w, returns_now ht hP, ?_⟩
  refine returns_bind.mpr ⟨(), w, returns_failIf.mpr ⟨Bool.eq_false_iff.mp hfits, rfl⟩, ?_⟩
  exact returns_mapError.mpr hsigned

/-- A signature of a time at which the issuer has not expired can come back. -/
theorem returns_sign {p : SignParams} {c : X509} (t : Time) (serial : Nat) (digest : String)
    (ht : 0 < t) (hca : p.issuer.isCA = true) (hlive : t.after p.issuer.notAfter = false)
    (hserial : 1 ≤ serial ∧ serial ≤ 2 ^ 127)
    (hfits : (t.addDays p.lifetime).after p.issuer.notAfter = false)
    (hc : x509CreateCertificate (p.template serial t (t.addDays p.lifetime)) (some p.issuer)
      p.csr.publicKey p.issuerKey digest = .ok c) : (sign p).Returns exec w (.ok c) w :=
  (returns_sign_steady (P := fun _ => true) t serial digest ht rfl hca hlive hserial hfits
    hc).of_under

/-- The signature that `createCA` gives at a time, with the key that it drew. -/
structure CreatedAt (p : CAParams) (t : Time) (k : PrivateKey) (c : X509) : Prop where
  time : 0 < t
  drawn : k.publicKey.kind = p.keyType.kind
  fits : ∃ serial digest, outruns (p.template k.publicKey serial t) p.parent = .ok () ∧
    x509CreateCertificate (p.template k.publicKey serial t) (p.parent.map Prod.fst) k.publicKey
      ((p.parent.map Prod.snd).getD k) digest = .ok c

/-- **What `createCA` returns** is the signature of some time. -/
theorem createCA_returns {p : CAParams} {r : CAResult}
    (h : (createCA p).Returns exec w (.ok r) w') :
    (∃ t, CreatedAt p t r.privateKey r.certificate) ∧ w = w' := by
  unfold createCA at h
  obtain ⟨_, _, hvalid, h⟩ := returns_bind.mp h
  obtain ⟨_, rfl⟩ := returns_ofExcept.mp hvalid
  obtain ⟨key, _, hkey, h⟩ := returns_bind.mp h
  obtain ⟨hdrawn, rfl⟩ := generateKey_returns.mp (returns_mapError.mp hkey)
  obtain ⟨serial, _, hserial, h⟩ := returns_bind.mp h
  obtain ⟨_, rfl⟩ := newSerial_returns.mp hserial
  obtain ⟨t, _, ht, h⟩ := returns_bind.mp h
  obtain ⟨hpos, rfl⟩ := now_returns.mp ht
  obtain ⟨_, _, hfits, h⟩ := returns_bind.mp h
  obtain ⟨houtruns, rfl⟩ := returns_ofExcept.mp hfits
  obtain ⟨c, _, hc, h⟩ := returns_bind.mp h
  obtain ⟨⟨digest, hsigned⟩, rfl⟩ := signTemplate_returns.mp (returns_mapError.mp hc)
  obtain ⟨rfl, rfl⟩ := returns_pure.mp h
  exact ⟨⟨t, hpos, hdrawn, serial, digest, houtruns, hsigned⟩, rfl⟩

end Goca.Pki
