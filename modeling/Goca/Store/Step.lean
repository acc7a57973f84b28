import Goca.Store.World

/-!
# What one statement does to one row

A law about a row need not look at every statement: `CertStep`, `OrderStep` and the others list
the ways a row can change, each with the statement that does it and the condition of its `WHERE`
clause, and one theorem for each table says that every statement of every run is in the list. What
a failed statement did is covered: its row is as before, or as after the statement.
-/

set_option autoImplicit false

namespace Goca.Store

open Go (Time)
open Sql (Table)

/-! ## Faults -/

/-- What a statement leaves under a fault: nothing changed, or what it does. -/
theorem Fault.apply_cases {α W : Type} (f : Fault) (w : W) (done : Except Go.Error α × W) :
    (f.commits = false ∧ (∃ text, (f.apply w done).1 = .error (.driver text)) ∧
        (f.apply w done).2 = w) ∨
      (f.commits = true ∧ (f.apply w done).2 = done.2 ∧ ((f.apply w done).1 = done.1 ∨
        ∃ text, (f.apply w done).1 = .error (.driver text))) := by
  cases f with
  | none => exact .inr ⟨rfl, rfl, .inl rfl⟩
  | lost text => exact .inl ⟨rfl, ⟨text, rfl⟩, rfl⟩
  | late text => exact .inr ⟨rfl, rfl, .inr ⟨text, rfl⟩⟩

theorem Fault.apply_commits {α W : Type} {f : Fault} (h : f.commits = true) (w : W)
    (done : Except Go.Error α × W) : (f.apply w done).2 = done.2 := by
  obtain ⟨hf, _⟩ | ⟨_, hdone, _⟩ := f.apply_cases w done
  · rw [h] at hf; cases hf
  · exact hdone

/-- A statement that answered with a result took effect. -/
theorem Fault.apply_ok {α W : Type} {f : Fault} {w : W} {done : Except Go.Error α × W} {a : α}
    (h : (f.apply w done).1 = .ok a) : done.1 = .ok a ∧ (f.apply w done).2 = done.2 := by
  cases f with
  | none => exact ⟨h, rfl⟩
  | lost text => cases h
  | late text => cases h

theorem Fault.answer_ok {α : Type} {f : Fault} {r : Except Go.Error α} {a : α}
    (h : f.answer r = .ok a) : r = .ok a := by
  cases f with
  | none => exact h
  | lost text => cases h
  | late text => cases h

section

variable [Go.Runtime] {e : Env} {w w' : World}

/-! ## Statements by kind -/

/-- What a statement over the CA tables does to the world. -/
theorem exec_ca {s : CaStmt} {x : Except Go.Error s.Res}
    (h : exec e w (.ca s) = some (x, w')) :
    0 < e.now ∧ x = (e.fault.apply w.ca (w.ca.exec e s)).1 ∧
      w' = { w with ca := (e.fault.apply w.ca (w.ca.exec e s)).2 } := by
  unfold exec at h
  split at h
  · next hnow =>
    cases h
    exact ⟨hnow, rfl, rfl⟩
  · cases h

theorem exec_acme {s : AcmeStmt} {x : Except Go.Error s.Res}
    (h : exec e w (.acme s) = some (x, w')) :
    0 < e.now ∧ x = (e.fault.apply w.acme (w.acme.exec e w.ca.certificates s)).1 ∧
      w' = { w with acme := (e.fault.apply w.acme (w.acme.exec e w.ca.certificates s)).2 } := by
  unfold exec at h
  split at h
  · next hnow =>
    cases h
    exact ⟨hnow, rfl, rfl⟩
  · cases h

theorem exec_host {s : HostStmt} {x : s.Res} (h : exec e w (.host s) = some (x, w')) :
    0 < e.now ∧ hostExec e w s = some (x, w') := by
  unfold exec at h
  split at h
  · next hnow => exact ⟨hnow, h⟩
  · cases h

omit [Go.Runtime] in
/-- The host leaves the tables alone. -/
theorem hostExec_tables {s : HostStmt} {x : s.Res} (h : hostExec e w s = some (x, w')) :
    w'.ca = w.ca ∧ w'.acme = w.acme := by
  cases s with
  | newSerial =>
    simp only [hostExec] at h
    split at h
    · cases h; exact ⟨rfl, rfl⟩
    · cases h
  | randomToken =>
    simp only [hostExec] at h
    split at h
    · cases h
    · cases h; exact ⟨rfl, rfl⟩
  | diverge => cases h
  | _ => cases h; exact ⟨rfl, rfl⟩

/-- The clock of every statement is past Go's zero time. -/
theorem exec_now_pos {s : Stmt} {x : s.Ans} (h : exec e w s = some (x, w')) : 0 < e.now := by
  unfold exec at h
  split at h
  · next hnow => exact hnow
  · cases h

/-- A law of the CA tables need only look at the statements over them. -/
theorem exec_ca_induction {P : Stmt → CaTables → CaTables → Prop}
    (same : ∀ s t, P s t t) (step : ∀ s t, e.fault.commits = true → P (.ca s) t (t.exec e s).2)
    {s : Stmt} {x : s.Ans} (h : exec e w s = some (x, w')) : P s w.ca w'.ca := by
  cases s with
  | ca s =>
    obtain ⟨_, _, rfl⟩ := exec_ca h
    obtain ⟨_, _, hw⟩ | ⟨hc, hw, _⟩ := e.fault.apply_cases w.ca (w.ca.exec e s)
    · show P _ _ (e.fault.apply w.ca (w.ca.exec e s)).2
      rw [hw]
      exact same _ _
    · show P _ _ (e.fault.apply w.ca (w.ca.exec e s)).2
      rw [hw]
      exact step s w.ca hc
  | acme s =>
    obtain ⟨_, _, rfl⟩ := exec_acme h
    exact same _ _
  | audit =>
    unfold exec at h
    split at h
    · cases h; exact same _ _
    · cases h
  | host s =>
    rw [(hostExec_tables (exec_host h).2).1]
    exact same _ _

/-- A law of the ACME tables need only look at the statements over them. -/
theorem exec_acme_induction {P : Stmt → AcmeTables → AcmeTables → Prop}
    (same : ∀ s t, P s t t)
    (step : ∀ s certs t, e.fault.commits = true → P (.acme s) t (t.exec e certs s).2)
    {s : Stmt} {x : s.Ans} (h : exec e w s = some (x, w')) : P s w.acme w'.acme := by
  cases s with
  | ca s =>
    obtain ⟨_, _, rfl⟩ := exec_ca h
    exact same _ _
  | acme s =>
    obtain ⟨_, _, rfl⟩ := exec_acme h
    obtain ⟨_, _, hw⟩ | ⟨hc, hw, _⟩ :=
      e.fault.apply_cases w.acme (w.acme.exec e w.ca.certificates s)
    · show P _ _ (e.fault.apply w.acme (w.acme.exec e w.ca.certificates s)).2
      rw [hw]
      exact same _ _
    · show P _ _ (e.fault.apply w.acme (w.acme.exec e w.ca.certificates s)).2
      rw [hw]
      exact step s _ w.acme hc
  | audit =>
    unfold exec at h
    split at h
    · cases h; exact same _ _
    · cases h
  | host s =>
    rw [(hostExec_tables (exec_host h).2).2]
    exact same _ _

end

/-! ## Certificates -/

/-- How the row of certificate `c` can change in one statement. -/
inductive CertStep (e : Env) (c : Nat) : Stmt → Option Certificate → Option Certificate → Prop
  | same (s : Stmt) (r : Option Certificate) : CertStep e c s r r
  | inserted (n : Certificate) (hc : e.fault.commits = true) :
      CertStep e c (.ca (.insertCertificate n)) none (some (n.stored c))
  | revoked (reason : Int) (r : Certificate) (hc : e.fault.commits = true)
      (hr : r.status ≠ .revoked) :
      CertStep e c (.ca (.revokeCertificate c reason)) (some r) (some (r.revoke e.now reason))
  | unrevoked (r : Certificate) (hc : e.fault.commits = true) :
      CertStep e c (.ca (.unrevokeCertificate c)) (some r) (some r.unrevoke)
  | renewed (p : Nat) (r : Certificate) (hc : e.fault.commits = true) :
      CertStep e c (.ca (.setRenewedFrom c p)) (some r) (some { r with renewedFrom := some p })

/-- **What a statement does to a certificate.** -/
theorem cert_step [Go.Runtime] {e : Env} {w w' : World} {s : Stmt} {x : s.Ans}
    (h : exec e w s = some (x, w')) (c : Nat) :
    CertStep e c s (w.ca.certificates.get? c) (w'.ca.certificates.get? c) := by
  refine exec_ca_induction (P := fun s t t' =>
    CertStep e c s (t.certificates.get? c) (t'.certificates.get? c)) ?_ ?_ h
  · exact fun s t => .same s _
  · intro s t hc
    cases s with
    | insertCA n =>
      simp only [CaTables.exec]
      split <;> exact .same _ _
    | completeCA id n =>
      simp only [CaTables.exec]
      split <;> exact .same _ _
    | insertCertificate n =>
      simp only [CaTables.exec]
      split
      · exact .same _ _
      · exact Table.insert_induction (P := CertStep e c _) _ _ (fun _ => rfl) _ (.same _) (.inserted n hc)
    | revokeCertificate id reason =>
      refine Table.update_induction (P := CertStep e c _) t.certificates (Certificate.unrevoked id)
        (·.revoke e.now reason) (fun _ => rfl) c (.same _) fun r hid hp => ?_
      simp only [Certificate.unrevoked, Bool.and_eq_true, beq_iff_eq, bne_iff_ne] at hp
      obtain rfl : c = id := hid.symm.trans hp.1
      exact .revoked reason r hc hp.2
    | unrevokeCertificate id =>
      refine Table.update_induction (P := CertStep e c _) t.certificates (·.id == id)
        Certificate.unrevoke (fun _ => rfl) c (.same _) fun r hid hp => ?_
      obtain rfl : c = id := hid.symm.trans (beq_iff_eq.mp hp)
      exact .unrevoked r hc
    | setRenewedFrom id p =>
      refine Table.update_induction (P := CertStep e c _) t.certificates (·.id == id)
        (fun r => { r with renewedFrom := some p }) (fun _ => rfl) c (.same _) fun r hid hp => ?_
      obtain rfl : c = id := hid.symm.trans (beq_iff_eq.mp hp)
      exact .renewed p r hc
    | _ => exact .same _ _

/-- What the update of `UnrevokeCertificate` leaves in its row. -/
theorem get?_unrevoke [Go.Runtime] (e : Env) (t : CaTables) (c : Nat) :
    (t.exec e (.unrevokeCertificate c)).2.certificates.get? c =
      (t.certificates.get? c).map Certificate.unrevoke :=
  t.certificates.get?_update_self (f := Certificate.unrevoke) (fun _ => rfl)
    fun _ hr => beq_iff_eq.mpr hr

/-! ## Nonces and tokens -/

/-- How the nonces can change in one statement. -/
inductive NonceStep : Stmt → List AcmeNonce → List AcmeNonce → Prop
  | same (s : Stmt) (ns : List AcmeNonce) : NonceStep s ns ns
  | recorded (n : String) (expires : Time) (ns : List AcmeNonce) (hn : n ∉ ns.map (·.nonce)) :
      NonceStep (.acme (.insertAcmeNonce n expires)) ns (ns ++ [⟨n, expires⟩])
  | redeemed (n : String) (t : Time) (ns : List AcmeNonce) :
      NonceStep (.acme (.consumeAcmeNonce n t)) ns (ns.filter fun r => !r.live n t)
  | purged (t : Time) (ns : List AcmeNonce) :
      NonceStep (.acme (.purgeExpiredAcmeNonces t)) ns (ns.filter fun r => !(r.expiresAt ≤ t))

/-- **What a statement does to the nonces.** -/
theorem nonce_step [Go.Runtime] {e : Env} {w w' : World} {s : Stmt} {x : s.Ans}
    (h : exec e w s = some (x, w')) : NonceStep s w.acme.nonces w'.acme.nonces := by
  refine exec_acme_induction (P := fun s t t' => NonceStep s t.nonces t'.nonces) ?_ ?_ h
  · exact fun s t => .same s _
  · intro s certs t hc
    cases s with
    | insertAcmeAccount a =>
      simp only [AcmeTables.exec]
      split <;> exact .same _ _
    | insertAcmeOrder o =>
      simp only [AcmeTables.exec, referred]
      split <;> exact .same _ _
    | setAcmeOrderCertificate id certID =>
      simp only [AcmeTables.exec, referred]
      split <;> exact .same _ _
    | insertAcmeAuthorization a =>
      simp only [AcmeTables.exec, referred]
      split <;> exact .same _ _
    | insertAcmeChallenge a =>
      simp only [AcmeTables.exec, referred]
      split <;> exact .same _ _
    | insertAcmeNonce n expires =>
      simp only [AcmeTables.exec]
      split
      · exact .same _ _
      · next hn =>
        refine .recorded n expires _ fun hmem => hn ?_
        obtain ⟨r, hr, rfl⟩ := List.mem_map.mp hmem
        exact List.any_eq_true.mpr ⟨r, hr, beq_self_eq_true _⟩
    | consumeAcmeNonce n t => exact .redeemed n t _
    | purgeExpiredAcmeNonces t => exact .purged t _
    | _ => exact .same _ _

/-- A redemption that is answered with one row found a nonce that had not expired. -/
theorem live_of_redeemed [Go.Runtime] {e : Env} {w w' : World} {n : String} {t : Time}
    (h : exec e w (.acme (.consumeAcmeNonce n t)) = some (.ok (1 : Nat), w')) :
    ∃ expires, (⟨n, expires⟩ : AcmeNonce) ∈ w.acme.nonces ∧ t < expires ∧
      w'.acme.nonces = w.acme.nonces.filter fun r => !r.live n t := by
  obtain ⟨_, hx, rfl⟩ := exec_acme h
  obtain ⟨hcount, hw⟩ := Fault.apply_ok hx.symm
  replace hcount : w.acme.nonces.countP (AcmeNonce.live n t) = 1 := Except.ok.inj hcount
  have hpos : 0 < w.acme.nonces.countP (AcmeNonce.live n t) := by rw [hcount]; exact Nat.one_pos
  obtain ⟨⟨n', expires⟩, hr, hlive⟩ := List.countP_pos_iff.mp hpos
  simp only [AcmeNonce.live, Bool.and_eq_true, beq_iff_eq, decide_eq_true_eq] at hlive
  obtain ⟨rfl, hlt⟩ := hlive
  exact ⟨expires, hr, hlt, congrArg AcmeTables.nonces hw⟩

/-- A token that is drawn was not drawn before. -/
theorem exec_randomToken [Go.Runtime] {e : Env} {w w' : World} {x : Except Go.Error String}
    (h : exec e w (.host .randomToken) = some (x, w')) :
    e.token ∉ w.tokens ∧ x = e.fault.answer (.ok e.token) ∧
      w' = { w with tokens := e.token :: w.tokens } := by
  obtain ⟨_, h⟩ := exec_host h
  simp only [hostExec] at h
  split at h
  · cases h
  · next hnew =>
    cases h
    exact ⟨hnew, rfl, rfl⟩

/-- A token that was given out is never forgotten. -/
theorem tokens_step [Go.Runtime] {e : Env} {w w' : World} {s : Stmt} {x : s.Ans}
    (h : exec e w s = some (x, w')) : w.tokens ⊆ w'.tokens := by
  cases s with
  | ca s =>
    obtain ⟨_, _, rfl⟩ := exec_ca h
    exact List.Subset.refl _
  | acme s =>
    obtain ⟨_, _, rfl⟩ := exec_acme h
    exact List.Subset.refl _
  | audit =>
    unfold exec at h
    split at h <;> cases h
    exact List.Subset.refl _
  | host s =>
    cases s with
    | randomToken =>
      obtain ⟨_, _, rfl⟩ := exec_randomToken h
      exact List.subset_cons_self _ _
    | newSerial =>
      have h := (exec_host h).2
      simp only [hostExec] at h
      split at h <;> cases h
      exact List.Subset.refl _
    | diverge => cases (exec_host h).2
    | _ =>
      cases (exec_host h).2
      exact List.Subset.refl _

/-! ## Accounts -/

/-- How the row of account `a` can change in one statement. -/
inductive AccountStep (e : Env) (a : Nat) :
    Stmt → Option AcmeAccount → Option AcmeAccount → Prop
  | same (s : Stmt) (r : Option AcmeAccount) : AccountStep e a s r r
  | inserted (n : AcmeAccount) (hc : e.fault.commits = true) :
      AccountStep e a (.acme (.insertAcmeAccount n)) none
        (some { n with id := a, lastUsedAt := none })
  | status (st : AcmeStatus) (r : AcmeAccount) (hc : e.fault.commits = true) :
      AccountStep e a (.acme (.setAcmeAccountStatus a st)) (some r) (some { r with status := st })
  | contact (contact : List String) (r : AcmeAccount) (hc : e.fault.commits = true) :
      AccountStep e a (.acme (.setAcmeAccountContact a contact)) (some r) (some { r with contact })
  | touched (r : AcmeAccount) (hc : e.fault.commits = true) :
      AccountStep e a (.acme (.touchAcmeAccountUsed a)) (some r)
        (some { r with lastUsedAt := some e.now })

/-- **What a statement does to an account.** -/
theorem account_step [Go.Runtime] {e : Env} {w w' : World} {s : Stmt} {x : s.Ans}
    (h : exec e w s = some (x, w')) (a : Nat) :
    AccountStep e a s (w.acme.accounts.get? a) (w'.acme.accounts.get? a) := by
  refine exec_acme_induction (P := fun s t t' =>
    AccountStep e a s (t.accounts.get? a) (t'.accounts.get? a)) ?_ ?_ h
  · exact fun s t => .same s _
  · intro s certs t hc
    cases s with
    | insertAcmeAccount n =>
      simp only [AcmeTables.exec]
      split
      · exact .same _ _
      · exact Table.insert_induction (P := AccountStep e a _) _ _ (fun _ => rfl) _ (.same _)
          (.inserted n hc)
    | setAcmeAccountStatus id st =>
      refine Table.update_induction (P := AccountStep e a _) t.accounts (·.id == id)
        (fun r => { r with status := st }) (fun _ => rfl) a (.same _) fun r hid hp => ?_
      obtain rfl : a = id := hid.symm.trans (beq_iff_eq.mp hp)
      exact .status st r hc
    | setAcmeAccountContact id contact =>
      refine Table.update_induction (P := AccountStep e a _) t.accounts (·.id == id)
        (fun r => { r with contact }) (fun _ => rfl) a (.same _) fun r hid hp => ?_
      obtain rfl : a = id := hid.symm.trans (beq_iff_eq.mp hp)
      exact .contact contact r hc
    | touchAcmeAccountUsed id =>
      refine Table.update_induction (P := AccountStep e a _) t.accounts (·.id == id)
        (fun r => { r with lastUsedAt := some e.now }) (fun _ => rfl) a (.same _) fun r hid hp => ?_
      obtain rfl : a = id := hid.symm.trans (beq_iff_eq.mp hp)
      exact .touched r hc
    | insertAcmeNonce nonce expires =>
      simp only [AcmeTables.exec]
      split <;> exact .same _ _
    | insertAcmeOrder o =>
      simp only [AcmeTables.exec, referred]
      split <;> exact .same _ _
    | setAcmeOrderCertificate id certID =>
      simp only [AcmeTables.exec, referred]
      split <;> exact .same _ _
    | insertAcmeAuthorization a =>
      simp only [AcmeTables.exec, referred]
      split <;> exact .same _ _
    | insertAcmeChallenge a =>
      simp only [AcmeTables.exec, referred]
      split <;> exact .same _ _
    | _ => exact .same _ _

/-! ## Account slots -/

/-- How many accounts are stored under a credential. -/
def AcmeTables.accountsOf (t : AcmeTables) (cred : Nat) : Nat := t.accounts.count (·.eabID == cred)

/-- How the number of accounts of credential `cred` and its row can change in one statement. -/
inductive SlotStep (e : Env) (t : AcmeTables) (cred : Nat) :
    Stmt → Nat → Option EABCred → Nat → Option EABCred → Prop
  | same (s : Stmt) (n : Nat) (r : Option EABCred) : SlotStep e t cred s n r n r
  | reserved (n : Nat) (r : EABCred) (hc : e.fault.commits = true)
      (hr : r.maxAccounts = 0 ∨ r.accountCount < r.maxAccounts) :
      SlotStep e t cred (.acme (.reserveEABAccountSlot cred)) n (some r) n
        (some { r with accountCount := r.accountCount + 1, lastUsedAt := some e.now })
  | released (n : Nat) (r : EABCred) (hc : e.fault.commits = true) :
      SlotStep e t cred (.acme (.releaseEABAccountSlot cred)) n (some r) n
        (some { r with accountCount := r.accountCount - 1 })
  | stored (a : AcmeAccount) (n : Nat) (r : Option EABCred) (hc : e.fault.commits = true)
      (hcred : a.eabID = cred) (hnew : t.accountConflict a = none) :
      SlotStep e t cred (.acme (.insertAcmeAccount a)) n r (n + 1) r

/-- An update of an account that keeps its credential. -/
theorem SlotStep.updated {e : Env} (t : AcmeTables) (cred : Nat) (s : Stmt) (id : Nat)
    (f : AcmeAccount → AcmeAccount) (hf : ∀ a, (f a).id = a.id)
    (hcred : ∀ a, (f a).eabID = a.eabID) :
    SlotStep e t cred s (t.accountsOf cred) (t.eabCreds.get? cred)
      ((t.updateAccounts id f hf).accountsOf cred)
      ((t.updateAccounts id f hf).eabCreds.get? cred) := by
  have hcount : (t.updateAccounts id f hf).accountsOf cred = t.accountsOf cred :=
    Table.count_update hf fun a => by rw [hcred]
  rw [hcount]
  exact .same s _ _

/-- **What a statement does to the accounts of a credential.** -/
theorem slot_step [Go.Runtime] {e : Env} {w w' : World} {s : Stmt} {x : s.Ans}
    (h : exec e w s = some (x, w')) (cred : Nat) :
    SlotStep e w.acme cred s (w.acme.accountsOf cred) (w.acme.eabCreds.get? cred)
      (w'.acme.accountsOf cred) (w'.acme.eabCreds.get? cred) := by
  refine exec_acme_induction (P := fun s t t' => SlotStep e t cred s (t.accountsOf cred)
    (t.eabCreds.get? cred) (t'.accountsOf cred) (t'.eabCreds.get? cred)) ?_ ?_ h
  · exact fun s t => .same s _ _
  · intro s certs t hc
    cases s with
    | reserveEABAccountSlot id =>
      refine Table.update_induction (P := fun r r' => SlotStep e t cred _ (t.accountsOf cred) r
        (t.accountsOf cred) r') t.eabCreds (EABCred.free id) (fun c => { c with
          accountCount := c.accountCount + 1, lastUsedAt := some e.now }) (fun _ => rfl) cred
        (fun r => .same _ _ r) fun r hid hp => ?_
      simp only [EABCred.free, Bool.and_eq_true, Bool.or_eq_true, beq_iff_eq,
        decide_eq_true_eq] at hp
      obtain rfl : cred = id := hid.symm.trans hp.1
      exact .reserved _ r hc hp.2
    | releaseEABAccountSlot id =>
      refine Table.update_induction (P := fun r r' => SlotStep e t cred _ (t.accountsOf cred) r
        (t.accountsOf cred) r') t.eabCreds (EABCred.reserved id)
        (fun c => { c with accountCount := c.accountCount - 1 }) (fun _ => rfl) cred
        (fun r => .same _ _ r) fun r hid hp => ?_
      simp only [EABCred.reserved, Bool.and_eq_true, beq_iff_eq] at hp
      obtain rfl : cred = id := hid.symm.trans hp.1
      exact .released _ r hc
    | insertAcmeAccount a =>
      simp only [AcmeTables.exec]
      split
      · exact .same _ _ _
      · next hnew =>
        have hcount := Table.count_insert t.accounts
          (fun id => { a with id, lastUsedAt := none }) (fun _ => rfl) (·.eabID == cred)
        by_cases hcred : a.eabID = cred
        · rw [if_pos (beq_iff_eq.mpr hcred)] at hcount
          show SlotStep e t cred _ _ _ (Table.count _ _) _
          rw [hcount]
          exact .stored a _ _ hc hcred hnew
        · rw [if_neg (by simpa using hcred)] at hcount
          show SlotStep e t cred _ _ _ (Table.count _ _) _
          rw [hcount]
          exact .same _ _ _
    | setAcmeAccountStatus id st =>
      exact .updated t cred _ id (fun a => { a with status := st }) (fun _ => rfl) fun _ => rfl
    | setAcmeAccountContact id contact =>
      exact .updated t cred _ id (fun a => { a with contact }) (fun _ => rfl) fun _ => rfl
    | touchAcmeAccountUsed id =>
      exact .updated t cred _ id (fun a => { a with lastUsedAt := some e.now }) (fun _ => rfl) fun _ => rfl
    | insertAcmeNonce nonce expires =>
      simp only [AcmeTables.exec]
      split <;> exact .same _ _ _
    | insertAcmeOrder o =>
      simp only [AcmeTables.exec, referred]
      split <;> exact .same _ _ _
    | setAcmeOrderCertificate id certID =>
      simp only [AcmeTables.exec, referred]
      split <;> exact .same _ _ _
    | insertAcmeAuthorization a =>
      simp only [AcmeTables.exec, referred]
      split <;> exact .same _ _ _
    | insertAcmeChallenge a =>
      simp only [AcmeTables.exec, referred]
      split <;> exact .same _ _ _
    | _ => exact .same _ _ _

/-- A reservation that is answered with one row found a free slot, and took it. -/
theorem reserved_of_ok [Go.Runtime] {e : Env} {w w' : World} {cred : Nat}
    (h : exec e w (.acme (.reserveEABAccountSlot cred)) = some (.ok (1 : Nat), w')) :
    ∃ r, w.acme.eabCreds.get? cred = some r ∧
      (r.maxAccounts = 0 ∨ r.accountCount < r.maxAccounts) ∧
      w'.acme.eabCreds.get? cred = some { r with
        accountCount := r.accountCount + 1, lastUsedAt := some e.now } ∧
      w'.acme.accountsOf cred = w.acme.accountsOf cred := by
  obtain ⟨_, hx, rfl⟩ := exec_acme h
  obtain ⟨hcount, hw⟩ := Fault.apply_ok hx.symm
  replace hcount : w.acme.eabCreds.count (EABCred.free cred) = 1 := Except.ok.inj hcount
  have hpos : 0 < w.acme.eabCreds.rows.countP (EABCred.free cred) := by
    show 0 < w.acme.eabCreds.count (EABCred.free cred)
    rw [hcount]
    exact Nat.one_pos
  obtain ⟨r, hr, hfree⟩ := List.countP_pos_iff.mp hpos
  have hslot := hfree
  simp only [EABCred.free, Bool.and_eq_true, Bool.or_eq_true, beq_iff_eq,
    decide_eq_true_eq] at hslot
  obtain ⟨rfl, hslot⟩ := hslot
  have hget : w.acme.eabCreds.get? r.id = some r := Table.get?_of_mem hr
  have haccounts : (e.fault.apply w.acme (w.acme.exec e w.ca.certificates
      (.reserveEABAccountSlot r.id))).2.accountsOf r.id = w.acme.accountsOf r.id := by
    rw [hw]
    rfl
  refine ⟨r, hget, hslot, ?_, haccounts⟩
  show (e.fault.apply _ _ : _ × AcmeTables).2.eabCreds.get? r.id = _
  rw [hw]
  refine (Table.get?_update w.acme.eabCreds (EABCred.free r.id) (fun c => { c with
    accountCount := c.accountCount + 1, lastUsedAt := some e.now }) (fun _ => rfl) r.id).trans ?_
  rw [hget, Option.map_some, if_pos hfree]

/-! ## Orders -/

/-- How the row of order `o` can change in one statement. -/
inductive OrderStep (e : Env) (o : Nat) : Stmt → Option AcmeOrder → Option AcmeOrder → Prop
  | same (s : Stmt) (r : Option AcmeOrder) : OrderStep e o s r r
  | inserted (n : AcmeOrder) (hc : e.fault.commits = true) :
      OrderStep e o (.acme (.insertAcmeOrder n)) none
        (some { n with id := o, certificateID := none, error := none })
  | failed (problem : Acme.Problem) (r : AcmeOrder) (hc : e.fault.commits = true)
      (hr : r.status ≠ .valid) :
      OrderStep e o (.acme (.setAcmeOrderError o problem)) (some r) (some (r.failed problem))
  | claimed (r : AcmeOrder) (hc : e.fault.commits = true) (hr : r.status = .ready) :
      OrderStep e o (.acme (.claimAcmeOrderForFinalize o)) (some r) (some r.claimed)
  | completed (certID : Nat) (r : AcmeOrder) (hc : e.fault.commits = true) :
      OrderStep e o (.acme (.setAcmeOrderCertificate o certID)) (some r)
        (some (r.completed certID))

/-- **What a statement does to an order.** -/
theorem order_step [Go.Runtime] {e : Env} {w w' : World} {s : Stmt} {x : s.Ans}
    (h : exec e w s = some (x, w')) (o : Nat) :
    OrderStep e o s (w.acme.orders.get? o) (w'.acme.orders.get? o) := by
  refine exec_acme_induction (P := fun s t t' =>
    OrderStep e o s (t.orders.get? o) (t'.orders.get? o)) ?_ ?_ h
  · exact fun s t => .same s _
  · intro s certs t hc
    cases s with
    | insertAcmeAccount a =>
      simp only [AcmeTables.exec]
      split <;> exact .same _ _
    | insertAcmeNonce nonce expires =>
      simp only [AcmeTables.exec]
      split <;> exact .same _ _
    | insertAcmeAuthorization a =>
      simp only [AcmeTables.exec, referred]
      split <;> exact .same _ _
    | insertAcmeChallenge a =>
      simp only [AcmeTables.exec, referred]
      split <;> exact .same _ _
    | insertAcmeOrder n =>
      simp only [AcmeTables.exec, referred]
      split
      · exact Table.insert_induction (P := OrderStep e o _) _ _ _ _ (.same _) (.inserted n hc)
      · exact .same _ _
    | setAcmeOrderError id problem =>
      refine Table.update_induction (P := OrderStep e o _) t.orders (AcmeOrder.unfinished id)
        (·.failed problem) (fun _ => rfl) o (.same _) fun r hid hp => ?_
      simp only [AcmeOrder.unfinished, Bool.and_eq_true, beq_iff_eq, bne_iff_ne] at hp
      obtain rfl : o = id := hid.symm.trans hp.1
      exact .failed problem r hc hp.2
    | claimAcmeOrderForFinalize id =>
      refine Table.update_induction (P := OrderStep e o _) t.orders (AcmeOrder.claimable id)
        AcmeOrder.claimed (fun _ => rfl) o (.same _) fun r hid hp => ?_
      simp only [AcmeOrder.claimable, Bool.and_eq_true, beq_iff_eq] at hp
      obtain rfl : o = id := hid.symm.trans hp.1
      exact .claimed r hc hp.2
    | setAcmeOrderCertificate id certID =>
      simp only [AcmeTables.exec, referred]
      split
      · refine Table.update_induction (P := OrderStep e o _) t.orders (·.id == id)
          (·.completed certID) (fun _ => rfl) o (.same _) fun r hid hp => ?_
        obtain rfl : o = id := hid.symm.trans (beq_iff_eq.mp hp)
        exact .completed certID r hc
      · exact .same _ _
    | _ => exact .same _ _

/-! ## Authorizations and challenges -/

/-- **What a statement does to the authorizations**: nothing, unless it inserts one, for an order
that is there. -/
theorem authorizations_step [Go.Runtime] {e : Env} {w w' : World} {s : Stmt} {x : s.Ans}
    (h : exec e w s = some (x, w')) :
    w'.acme.authorizations = w.acme.authorizations ∨
      ∃ a, s = .acme (.insertAcmeAuthorization a) ∧
        (w.acme.orders.get? a.orderID).isSome = true ∧
        w'.acme.authorizations = w.acme.authorizations.insert (fun id => { a with id })
          fun _ => rfl := by
  refine exec_acme_induction (P := fun s t t' => t'.authorizations = t.authorizations ∨
    ∃ a, s = .acme (.insertAcmeAuthorization a) ∧ (t.orders.get? a.orderID).isSome = true ∧
      t'.authorizations = t.authorizations.insert (fun id => { a with id }) fun _ => rfl) ?_ ?_ h
  · intro s t
    exact .inl rfl
  · intro s certs t _
    cases s with
    | insertAcmeAuthorization a =>
      simp only [AcmeTables.exec, referred]
      split
      next hparent => exact .inr ⟨a, rfl, hparent, rfl⟩
      next => exact .inl rfl
    | insertAcmeAccount a =>
      simp only [AcmeTables.exec]
      split <;> exact .inl rfl
    | insertAcmeNonce nonce expires =>
      simp only [AcmeTables.exec]
      split <;> exact .inl rfl
    | insertAcmeOrder n =>
      simp only [AcmeTables.exec, referred]
      split <;> exact .inl rfl
    | insertAcmeChallenge c =>
      simp only [AcmeTables.exec, referred]
      split <;> exact .inl rfl
    | setAcmeOrderCertificate id certID =>
      simp only [AcmeTables.exec, referred]
      split <;> exact .inl rfl
    | _ => exact .inl rfl

/-- And to the challenges. -/
theorem challenges_step [Go.Runtime] {e : Env} {w w' : World} {s : Stmt} {x : s.Ans}
    (h : exec e w s = some (x, w')) :
    w'.acme.challenges = w.acme.challenges ∨ ∃ c, s = .acme (.insertAcmeChallenge c) ∧
      (w.acme.authorizations.get? c.authorizationID).isSome = true ∧
      w'.acme.challenges = w.acme.challenges.insert (fun id => { c with id }) fun _ => rfl := by
  refine exec_acme_induction (P := fun s t t' => t'.challenges = t.challenges ∨
    ∃ c, s = .acme (.insertAcmeChallenge c) ∧
      (t.authorizations.get? c.authorizationID).isSome = true ∧
      t'.challenges = t.challenges.insert (fun id => { c with id }) fun _ => rfl) ?_ ?_ h
  · intro s t
    exact .inl rfl
  · intro s certs t _
    cases s with
    | insertAcmeChallenge c =>
      simp only [AcmeTables.exec, referred]
      split
      next hparent => exact .inr ⟨c, rfl, hparent, rfl⟩
      next => exact .inl rfl
    | insertAcmeAccount a =>
      simp only [AcmeTables.exec]
      split <;> exact .inl rfl
    | insertAcmeNonce nonce expires =>
      simp only [AcmeTables.exec]
      split <;> exact .inl rfl
    | insertAcmeOrder n =>
      simp only [AcmeTables.exec, referred]
      split <;> exact .inl rfl
    | insertAcmeAuthorization a =>
      simp only [AcmeTables.exec, referred]
      split <;> exact .inl rfl
    | setAcmeOrderCertificate id certID =>
      simp only [AcmeTables.exec, referred]
      split <;> exact .inl rfl
    | _ => exact .inl rfl

/-- A claim that is answered with one row found the order ready. -/
theorem ready_of_claimed [Go.Runtime] {e : Env} {w w' : World} {o : Nat}
    (h : exec e w (.acme (.claimAcmeOrderForFinalize o)) = some (.ok (1 : Nat), w')) :
    ∃ r, w.acme.orders.get? o = some r ∧ r.status = .ready ∧
      w'.acme.orders.get? o = some r.claimed := by
  obtain ⟨_, hx, rfl⟩ := exec_acme h
  obtain ⟨hcount, hw⟩ := Fault.apply_ok hx.symm
  replace hcount : w.acme.orders.count (AcmeOrder.claimable o) = 1 := Except.ok.inj hcount
  have hpos : 0 < w.acme.orders.rows.countP (AcmeOrder.claimable o) := by
    show 0 < w.acme.orders.count (AcmeOrder.claimable o)
    rw [hcount]
    exact Nat.one_pos
  obtain ⟨r, hr, hclaim⟩ := List.countP_pos_iff.mp hpos
  simp only [AcmeOrder.claimable, Bool.and_eq_true, beq_iff_eq] at hclaim
  obtain ⟨rfl, hready⟩ := hclaim
  have hget : w.acme.orders.get? r.id = some r := Table.get?_of_mem hr
  refine ⟨r, hget, hready, ?_⟩
  show (e.fault.apply _ _ : _ × AcmeTables).2.orders.get? r.id = _
  rw [hw]
  refine (Table.get?_update w.acme.orders (AcmeOrder.claimable r.id) AcmeOrder.claimed
    (fun _ => rfl) r.id).trans ?_
  rw [hget, Option.map_some]
  simp [AcmeOrder.claimable, hready]

/-- What `SetAcmeOrderCertificate` leaves in its row when the certificate is stored. -/
theorem get?_completed [Go.Runtime] (e : Env) (certs : Table Certificate) (t : AcmeTables)
    (o : Nat) {certID : Nat} (h : (certs.get? certID).isSome = true) :
    (t.exec e certs (.setAcmeOrderCertificate o certID)).2.orders.get? o =
      (t.orders.get? o).map (·.completed certID) := by
  simp only [AcmeTables.exec, referred, h, Bool.true_or, if_pos]
  exact t.orders.get?_update_self (f := (·.completed certID)) (fun _ => rfl)
    fun _ hr => beq_iff_eq.mpr hr

/-- What `SetAcmeOrderError` leaves in the row of an order that is not valid. -/
theorem get?_failed [Go.Runtime] (e : Env) (certs : Table Certificate) (t : AcmeTables) {o : Nat}
    (problem : Acme.Problem) {r : AcmeOrder} (hr : t.orders.get? o = some r)
    (hstatus : r.status ≠ .valid) :
    (t.exec e certs (.setAcmeOrderError o problem)).2.orders.get? o = some (r.failed problem) := by
  refine (Table.get?_update t.orders (AcmeOrder.unfinished o) (·.failed problem) (fun _ => rfl)
    o).trans ?_
  have hid : r.id = o := Table.key_of_get? hr
  rw [hr, Option.map_some]
  simp [AcmeOrder.unfinished, hid, hstatus]

/-- A query for an order answers with the row of that number. -/
theorem get?_of_selectAcmeOrder [Go.Runtime] {e : Env} {w w' : World} {o : Nat} {r : AcmeOrder}
    (h : exec e w (.acme (.selectAcmeOrder o)) = some (.ok (some r), w')) :
    w.acme.orders.get? o = some r := by
  obtain ⟨_, hx, _⟩ := exec_acme h
  exact Except.ok.inj (Fault.apply_ok hx.symm).1

theorem get?_of_selectAcmeAuthorization [Go.Runtime] {e : Env} {w w' : World} {a : Nat}
    {r : AcmeAuthorization}
    (h : exec e w (.acme (.selectAcmeAuthorization a)) = some (.ok (some r), w')) :
    w.acme.authorizations.get? a = some r := by
  obtain ⟨_, hx, _⟩ := exec_acme h
  exact Except.ok.inj (Fault.apply_ok hx.symm).1

theorem get?_of_selectCertificate [Go.Runtime] {e : Env} {w w' : World} {c : Nat} {r : Certificate}
    (h : exec e w (.ca (.selectCertificate c)) = some (.ok (some r), w')) :
    w.ca.certificates.get? c = some r := by
  obtain ⟨_, hx, _⟩ := exec_ca h
  exact Except.ok.inj (Fault.apply_ok hx.symm).1

theorem get?_of_selectAcmeAccount [Go.Runtime] {e : Env} {w w' : World} {a : Nat} {r : AcmeAccount}
    (h : exec e w (.acme (.selectAcmeAccount a)) = some (.ok (some r), w')) :
    w.acme.accounts.get? a = some r := by
  obtain ⟨_, hx, _⟩ := exec_acme h
  exact Except.ok.inj (Fault.apply_ok hx.symm).1

theorem get?_of_selectEABCred [Go.Runtime] {e : Env} {w w' : World} {d : Nat} {r : EABCred}
    (h : exec e w (.acme (.selectEABCred d)) = some (.ok (some r), w')) :
    w.acme.eabCreds.get? d = some r := by
  obtain ⟨_, hx, _⟩ := exec_acme h
  exact Except.ok.inj (Fault.apply_ok hx.symm).1

theorem get?_of_selectCA [Go.Runtime] {e : Env} {w w' : World} {c : Nat} {r : CA}
    (h : exec e w (.ca (.selectCA c)) = some (.ok (some r), w')) : w.ca.cas.get? c = some r := by
  obtain ⟨_, hx, _⟩ := exec_ca h
  exact Except.ok.inj (Fault.apply_ok hx.symm).1

/-- A certificate whose insertion was answered with a number is stored under it. -/
theorem get?_of_insertCertificate [Go.Runtime] {e : Env} {w w' : World} {c : Certificate} {n : Nat}
    (h : exec e w (.ca (.insertCertificate c)) = some (.ok n, w')) :
    w'.ca.certificates.get? n = some (c.stored n) := by
  obtain ⟨_, hx, rfl⟩ := exec_ca h
  obtain ⟨hans, hw⟩ := Fault.apply_ok hx.symm
  show (e.fault.apply _ _ : _ × CaTables).2.certificates.get? n = _
  rw [hw]
  unfold CaTables.exec at hans ⊢
  cases hconflict : w.ca.certConflict c with
  | some text => simp [hconflict] at hans
  | none =>
    simp only [hconflict] at hans ⊢
    obtain rfl := Except.ok.inj hans
    exact (Table.get?_insert _ _ _ _).trans (if_pos rfl)

/-- A certificate that is stored is never removed. -/
theorem cert_kept [Go.Runtime] {e : Env} {w w' : World} {s : Stmt} {x : s.Ans}
    (h : exec e w s = some (x, w')) {c : Nat} (hc : (w.ca.certificates.get? c).isSome = true) :
    (w'.ca.certificates.get? c).isSome = true := by
  have hstep := cert_step h c
  generalize w.ca.certificates.get? c = r, w'.ca.certificates.get? c = r' at hstep hc ⊢
  cases hstep with
  | same => exact hc
  | inserted n hc' => cases hc
  | revoked reason r hc' hr => rfl
  | unrevoked r hc' => rfl
  | renewed p r hc' => rfl

end Goca.Store
