import Goca.Lib.Trace
import Goca.Store.Step
import Goca.Vault.Calls

/-!
# One statement of the secret manager

What a statement that is admitted leaves and answers, whatever becomes of the connection, and which
statements a call may ask at all.
-/

set_option autoImplicit false

namespace Goca.Vault

open Goca.K8s (Identity)
open Goca.Pqcrypt (Bytes)
open Sql (Table)
open Interleave (Act Pool Prog Sem Trace)
open Interleave.Act

/-! ## What a statement leaves -/

section Statement

variable [Go.Runtime] {e : Store.Env} {w w' : World}

/-- A statement of the vault was not waiting. It left what it does, and answers so or with an error;
or it left everything as it was, and answers with an error. -/
theorem exec_db {s : DbStmt} {x : Except Go.Error s.Res}
    (h : exec e w (.inr (.db s)) = some (x, w')) :
    w.vault.waits s = false ∧ w'.base = w.base ∧
      ((w'.vault = w.vault ∧ ∃ err, x = .error err) ∨
        (w'.vault = (w.vault.exec w.base.ca.certificates s).2 ∧
          ∀ r, x = .ok r → (w.vault.exec w.base.ca.certificates s).1 = .ok r)) := by
  have hstep : vaultExec e w (.db s) = some (x, w') := h
  unfold vaultExec at hstep
  dsimp only at hstep
  by_cases hwaits : w.vault.waits s = true
  · rw [if_pos hwaits] at hstep
    cases hstep
  · rw [if_neg hwaits] at hstep
    obtain ⟨hx, rfl⟩ := Prod.mk.inj (Option.some.inj hstep)
    refine ⟨Bool.not_eq_true _ ▸ hwaits, rfl, ?_⟩
    obtain ⟨-, ⟨text, herr⟩, htables⟩ | ⟨-, htables, hans⟩ :=
      e.fault.apply_cases w.vault (w.vault.exec w.base.ca.certificates s)
    · exact .inl ⟨htables, _, hx.symm.trans herr⟩
    · refine .inr ⟨htables, fun r hr => ?_⟩
      rcases hans with hans | ⟨text, herr⟩
      · rw [← hans, hx, hr]
      · rw [hx, hr] at herr
        cases herr

/-- What a statement that answered with a result left, and the result. -/
theorem exec_db_ok {s : DbStmt} {r : s.Res} (h : exec e w (.inr (.db s)) = some (.ok r, w')) :
    w.vault.waits s = false ∧ w'.base = w.base ∧
      w.vault.exec w.base.ca.certificates s = (.ok r, w'.vault) := by
  obtain ⟨hwaits, hbase, ⟨-, err, herr⟩ | ⟨htables, hans⟩⟩ := exec_db h
  · cases herr
  · exact ⟨hwaits, hbase, Prod.ext (hans r rfl) htables.symm⟩

/-- Every other statement leaves the tables of the vault alone. -/
theorem exec_other {s : sig.Stmt} {x : sig.Ans s} (hs : ∀ d, s ≠ .inr (.db d))
    (h : exec e w s = some (x, w')) : w'.vault = w.vault := by
  cases s with
  | inl s =>
    obtain ⟨base, -, rfl⟩ := Sem.sum_inl.mp h
    rfl
  | inr s =>
    cases s with
    | db d => exact absurd rfl (hs d)
    | encapsulate =>
      obtain ⟨-, rfl⟩ := Prod.mk.inj (Option.some.inj h)
      rfl
    | random =>
      obtain ⟨-, rfl⟩ := Prod.mk.inj (Option.some.inj h)
      rfl

/-- **What a move does to the tables**: nothing, or what an admitted statement of the vault does. -/
theorem tables_step {s : sig.Stmt} {x : sig.Ans s} (h : exec e w s = some (x, w')) :
    w'.vault = w.vault ∨ ∃ d, s = .inr (.db d) ∧ w.vault.waits d = false ∧
      w'.vault = (w.vault.exec w.base.ca.certificates d).2 := by
  by_cases hs : ∃ d, s = .inr (.db d)
  · obtain ⟨d, rfl⟩ := hs
    obtain ⟨hwaits, -, ⟨htables, -⟩ | ⟨htables, -⟩⟩ := exec_db h
    · exact .inl htables
    · exact .inr ⟨d, rfl, hwaits, htables⟩
  · exact .inl (exec_other (fun d hd => hs ⟨d, hd⟩) h)

end Statement

/-! ## What a call may ask -/

/-- The statements that change nothing. -/
def DbStmt.reads : DbStmt → Prop
  | .selectSecret _ | .selectSecretByName _ | .listSecrets _ | .selectVersion _ _
  | .selectLatestVersion _ | .listVersions _ | .selectBinding _ | .listBindings _ => True
  | _ => False

/-- The statements by which a call changes the tables. -/
def Call.writes : Call → DbStmt → Prop
  | .request (.create i), .insertSecret s => s.name = normalizeName i.name ∧ s.currentVersion = 0
  | .request (.updateMeta _ _ _ _ _), .updateSecretMeta _ _ _ _ => True
  | .request (.setDisabled _ disabled _), .setSecretDisabled _ d => d = disabled
  | .request (.delete _ _), .deleteSecret _ => True
  | .request (.put _ _ _ _), .begin => True
  | .request (.put _ _ _ _), .reserveVersion _ _ => True
  | .request (.put _ _ _ _), .insertVersion _ _ => True
  | .request (.put _ _ _ _), .commit _ => True
  | .request (.put _ _ _ _), .rollback _ => True
  | .request (.destroyVersion _ _ _), .destroyVersion _ => True
  | .request (.bind _ _ _ _ _ _), .insertBinding _ => True
  | .request (.unbind id _), .deleteBinding i => i = id
  | .disconnect tx, .rollback i => i = tx
  | _, _ => False

/-- The statements that a call may ask. -/
def Call.asks (c : Call) : sig.Stmt → Prop
  | .inr (.db s) => s.reads ∨ c.writes s
  | _ => True

/-- Who inserts a secret is creating one. -/
theorem Call.writes_insertSecret {c : Call} {sec : Secret} (h : c.writes (.insertSecret sec)) :
    ∃ i, c = .request (.create i) ∧ sec.name = normalizeName i.name ∧ sec.currentVersion = 0 := by
  cases c with
  | request r =>
    cases r with
    | create i => exact ⟨i, rfl, h⟩
    | _ => exact h.elim
  | _ => exact h.elim

section Asks

variable {ε α : Type} {c : Call}

theorem db_read {s : DbStmt} (h : s.reads) : (db s).Uses c.asks := .ask (.inl h) fun _ => .pure _

theorem db_write {s : DbStmt} (h : c.writes s) : (db s).Uses c.asks :=
  .ask (.inr h) fun _ => .pure _

theorem embed_asks (x : Store.Handler ε α) : x.embed.Uses c.asks := by
  have hany : ∀ p : Prog Store.sig (Except ε α), p.Uses fun _ => True := by
    intro p
    induction p with
    | pure a => exact .pure a
    | ask s k ih => exact .ask trivial ih
  exact Prog.Uses.embed (P := fun _ => True) (fun _ _ => trivial) (hany x.run)

theorem auditWithIP_asks (actor action target detail ip : String) :
    (auditWithIP actor action target detail ip : Handler ε Unit).Uses c.asks :=
  (embed_asks _).attempt.bind fun _ => uses_pure _

theorem audit_asks (actor action target detail : String) :
    (audit actor action target detail : Handler ε Unit).Uses c.asks := auditWithIP_asks ..

theorem get_asks (name : String) : (get name).Uses c.asks := (db_read (by trivial)).mapResult _

theorem draws_asks : draws.Uses c.asks := by
  have hrandom (what : String) : (random what).Uses c.asks :=
    Uses.mapError (.ask trivial fun _ => .pure _) _
  refine Uses.bind (.ask trivial fun _ => .pure _) fun _ => ?_
  refine (hrandom _).bind fun _ => (hrandom _).bind fun _ => (hrandom _).bind fun _ => ?_
  exact (hrandom _).bind fun _ => (hrandom _).bind fun _ => uses_pure _

theorem secretType_asks (s : Service) (i : CreateInput) : (s.secretType i).Uses c.asks := by
  have hpayload (type : SecretType) : (i.payloadType type).Uses c.asks :=
    (uses_failIf _ _).bind fun _ => uses_pure _
  unfold Service.secretType
  apply uses_ite
  · intro _
    exact hpayload .kv
  · intro _
    apply uses_ite
    · intro _
      exact hpayload .file
    · intro _
      apply uses_ite
      · intro _
        cases i.certID with
        | none => exact uses_throw _
        | some certID =>
          refine (uses_failIf _ _).bind fun _ => ?_
          exact ((embed_asks _).mapError _).bind fun _ => uses_pure _
      · intro _
        exact uses_throw _

theorem materializeCertificate_asks (s : Service) (sec : Secret) :
    (s.materializeCertificate sec).Uses c.asks := by
  unfold Service.materializeCertificate
  apply uses_ite
  · intro _
    exact uses_throw _
  · intro _
    cases sec.certID with
    | none => exact uses_throw _
    | some certID =>
      refine ((embed_asks _).mapError _).bind fun cert => ?_
      refine ((embed_asks _).mapError _).bind fun full => (uses_ofExcept _).bind fun key => ?_
      refine ((embed_asks _).mapError _).bind fun caRec => ?_
      exact ((embed_asks _).mapError _).bind fun chain => uses_pure _

theorem materialize_asks (s : Service) (name : String) : (s.materialize name).Uses c.asks := by
  have hopened (sec : Secret)
      (k : SecretVersion → Bytes → Handler Go.Error (Secret × List File × Marker))
      (hk : ∀ v pt, (k v pt).Uses c.asks) : (do
      let v ← getLatestSecretVersion sec.id
      let pt ← Act.ofExcept (s.openVersion sec v)
      k v pt).Uses c.asks := by
    refine Uses.bind ((db_read (by trivial)).mapResult _) fun v => ?_
    exact (uses_ofExcept _).bind fun pt => hk v pt
  refine (get_asks name).bind fun sec => (uses_failIf _ _).bind fun _ => ?_
  cases sec.type with
  | certificate => exact (materializeCertificate_asks s sec).bind fun _ => uses_pure _
  | kv => exact hopened sec _ fun _ _ => uses_pure _
  | file => exact hopened sec _ fun _ _ => uses_pure _

theorem resolveOpenable_asks (name : String) : (resolveOpenable name).Uses c.asks :=
  (get_asks name).bind fun _ => (uses_failIf _ _).bind fun _ => (uses_failIf _ _).bind fun _ =>
    uses_pure _

theorem bindings_asks (name : String) : (bindings name).Uses c.asks :=
  (get_asks name).bind fun _ => db_read (by trivial)

theorem matchesBinding_asks (b : SecretBinding) (ns sa method : String) :
    (matchesBinding b ns sa method : Handler ε Bool).Uses c.asks := by
  refine Uses.bind ?_ fun _ => uses_pure _
  unfold SecretBinding.usable
  cases b.expiresAt with
  | none => exact uses_pure _
  | some expires => exact (embed_asks _).bind fun _ => uses_pure _

theorem authorized_asks (id : Identity) (bs : List SecretBinding) :
    (Web.authorized id bs : Handler ε Bool).Uses c.asks := by
  induction bs with
  | nil => exact uses_pure _
  | cons b bs ih =>
    refine (matchesBinding_asks b _ _ _).bind fun matched => ?_
    apply uses_ite
    · intro _
      exact uses_pure _
    · intro _
      exact ih

theorem fetchOneVaultSecret_asks (s : Service) (id : Identity) (ip name : String) :
    (Web.fetchOneVaultSecret s id ip name).Uses c.asks := by
  refine ((get_asks name).mapError _).bind fun sec => ?_
  refine ((bindings_asks sec.name).mapError _).bind fun bs => ?_
  refine (authorized_asks id bs).bind fun _ => (uses_failIf _ _).bind fun _ => ?_
  refine ((materialize_asks s sec.name).mapError _).bind fun r => ?_
  exact (auditWithIP_asks ..).bind fun _ => uses_pure _

theorem fetchEach_asks (s : Service) (id : Identity) (ip : String) (names : List String) :
    (Web.fetchEach s id ip names : Handler ε (List Web.VaultFetchResult)).Uses c.asks := by
  induction names with
  | nil => exact uses_pure _
  | cons name names ih =>
    refine ((fetchOneVaultSecret_asks s id ip name).mapResult _).bind fun r => ?_
    exact ih.bind fun _ => uses_pure _

theorem apiESOFetchSecret_asks (s : Service) (id : Identity) (ip key property : String)
    (all : Bool) : (Web.apiESOFetchSecret s id ip key property all).Uses c.asks := by
  refine (uses_failIf _ _).bind fun _ => ((get_asks key).mapError _).bind fun sec => ?_
  refine ((bindings_asks sec.name).mapError _).bind fun bs => ?_
  refine (authorized_asks id bs).bind fun _ => (uses_failIf _ _).bind fun _ => ?_
  refine ((materialize_asks s sec.name).mapError _).bind fun r => ?_
  apply uses_ite
  · intro _
    exact (auditWithIP_asks ..).bind fun _ => uses_pure _
  · intro _
    exact (uses_ofExcept _).bind fun _ => (auditWithIP_asks ..).bind fun _ => uses_pure _

theorem replying_asks {err : ε → Reply} {ok : α → Reply} {x : Handler ε α} (h : x.Uses c.asks) :
    (replying err ok x).Uses c.asks :=
  Prog.Uses.bind h fun r => by
    cases r with
    | ok a => exact .pure _
    | error e => exact .pure _

theorem createSecretVersion_asks (s : Service) (name value contentType actor) (secretID : Nat)
    (h : c = .request (.put name value contentType actor)) :
    (createSecretVersion secretID contentType (s.sealFor value)).Uses c.asks := by
  subst h
  refine (db_write (by trivial)).bind fun tx => Uses.bind (Uses.attempt ?_) fun written => ?_
  · refine Uses.bind ((db_write (by trivial)).mapResult _) fun next => ?_
    refine Uses.bind ?_ fun sealed => (db_write (by trivial)).bind fun _ => uses_pure _
    exact (draws_asks.mapError _).bind fun _ => uses_pure _
  · cases written with
    | error err => exact (db_write (by trivial)).attempt.bind fun _ => uses_throw _
    | ok next => exact (db_write (by trivial)).bind fun _ => (db_read (by trivial)).mapResult _

theorem put_asks (s : Service) (name : String) (value : Bytes) (contentType actor : String) :
    (s.put name value contentType actor).Uses
      (Call.request (.put name value contentType actor)).asks := by
  refine (get_asks name).bind fun sec => (uses_failIf _ _).bind fun _ => ?_
  refine (uses_failIf _ _).bind fun _ => ?_
  refine (createSecretVersion_asks s name value contentType actor sec.id rfl).bind fun v => ?_
  exact (audit_asks _ _ _ _).bind fun _ => uses_pure _

/-- The requests, without what they answer. -/
theorem serve_asks (s : Service) (r : Request) : (s.serve r).Uses (Call.request r).asks := by
  have hdone {β : Type} {x : Handler Go.Error β} (h : x.Uses (Call.request r).asks) :
      (done x).Uses (Call.request r).asks := h.mapResult _
  cases r with
  | create i =>
    refine hdone ((uses_failIf _ _).bind fun _ => (secretType_asks s i).bind fun type => ?_)
    refine Uses.bind ?_ fun sec => (audit_asks _ _ _ _).bind fun _ => uses_pure _
    exact Uses.bind (db_write (by exact ⟨rfl, rfl⟩)) fun id => (db_read (by trivial)).mapResult _
  | updateMeta name description labelsJSON rotationDays actor =>
    refine hdone ((get_asks name).bind fun sec => ?_)
    refine Uses.bind ((db_write (by trivial)).mapResult _) fun _ => ?_
    refine (audit_asks _ _ _ _).bind fun _ => ?_
    exact (db_read (by trivial)).mapResult _
  | setDisabled name disabled actor =>
    refine hdone ((get_asks name).bind fun sec => ?_)
    exact Uses.bind ((db_write (by rfl)).mapResult _) fun _ => audit_asks _ _ _ _
  | delete name actor =>
    refine hdone ((get_asks name).bind fun sec => ?_)
    exact Uses.bind ((db_write (by trivial)).mapResult _) fun _ => audit_asks _ _ _ _
  | put name value contentType actor => exact hdone (put_asks s name value contentType actor)
  | destroyVersion name version actor =>
    refine hdone ((get_asks name).bind fun sec => ?_)
    refine Uses.bind ((db_read (by trivial)).mapResult _) fun v => ?_
    exact Uses.bind ((db_write (by trivial)).mapResult _) fun _ => audit_asks _ _ _ _
  | materialize name => exact hdone (materialize_asks s name)
  | bind name namespace_ serviceAccount authMethod expiresAt actor =>
    refine hdone ((get_asks name).bind fun sec => (uses_ofExcept _).bind fun _ => ?_)
    refine (uses_ofExcept _).bind fun _ => (uses_ofExcept _).bind fun _ => ?_
    refine Uses.bind ?_ fun b => (audit_asks _ _ _ _).bind fun _ => uses_pure _
    exact (db_write (by trivial)).bind fun id => (db_read (by trivial)).mapResult _
  | unbind bindingID actor =>
    exact hdone (Uses.bind ((db_write (by rfl)).mapResult _) fun _ => audit_asks _ _ _ _)
  | ca x => exact hdone (embed_asks x)

/-- **What a call asks**: the statements that change nothing, and its own. -/
theorem answer_asks (s : Service) (c : Call) : (s.answer c).Uses c.asks := by
  cases c with
  | request r =>
    by_cases hput : ∃ name value contentType actor, r = .put name value contentType actor
    · obtain ⟨name, value, contentType, actor, rfl⟩ := hput
      exact replying_asks (put_asks s name value contentType actor)
    · have hserve : s.answer (.request r) =
          replying .failed (fun _ => .done) (ExceptT.mk (s.serve r)) := by
        cases r with
        | put name value contentType actor => exact absurd ⟨_, _, _, _, rfl⟩ hput
        | _ => rfl
      rw [hserve]
      exact replying_asks (serve_asks s r)
  | getLatest name =>
    refine replying_asks ((resolveOpenable_asks name).bind fun sec => ?_)
    exact Uses.bind ((db_read (by trivial)).mapResult _) fun v => (uses_ofExcept _).bind fun _ =>
      uses_pure _
  | getVersion name version =>
    refine replying_asks ((resolveOpenable_asks name).bind fun sec => ?_)
    exact Uses.bind ((db_read (by trivial)).mapResult _) fun v => (uses_ofExcept _).bind fun _ =>
      uses_pure _
  | vaultFetch id ip body =>
    refine replying_asks ((uses_ofExcept _).bind fun secrets => (uses_failIf _ _).bind fun _ => ?_)
    exact (fetchEach_asks s id ip secrets).bind fun _ => uses_pure _
  | esoFetch id ip key property all =>
    exact replying_asks (apiESOFetchSecret_asks s id ip key property all)
  | disconnect tx => exact replying_asks (db_write (by rfl))

end Asks

end Goca.Vault
