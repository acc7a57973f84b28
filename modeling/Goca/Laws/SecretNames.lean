import Goca.Lib.Trace
import Goca.Store.Step
import Goca.Vault.Requests

/-!
# The names of secrets

A secret is created under a name without blanks around it that no other secret has, and keeps it:
there is one statement that inserts a secret, `Create` trims the name that it is given, and nothing
updates a name. So in every run the name of a secret leads back to it, whichever of its callers
trims it once more.
-/

set_option autoImplicit false

namespace Goca.Vault

open Goca.Pqcrypt (Bytes)
open Sql (Table)
open Interleave (Act Pool Prog Sem)
open Interleave.Act

/-- The names of the secrets, in the order of their rows. -/
def Tables.names (t : Tables) : List String := t.secrets.rows.map Secret.name

/-- **Names lead back**: they are trimmed, and no two are equal. -/
structure Tables.Named (t : Tables) : Prop where
  trimmed : ∀ n ∈ t.names, normalizeName n = n
  distinct : t.names.Nodup

theorem named_empty : Tables.empty.Named := ⟨fun _ h => absurd h List.not_mem_nil, List.nodup_nil⟩

theorem named_congr {t t' : Tables} (h : t'.names = t.names) (ht : t.Named) : t'.Named := by
  constructor
  · rw [h]
    exact ht.trimmed
  · rw [h]
    exact ht.distinct

/-- A secret is found under its name. -/
theorem Tables.Named.find {t : Tables} (h : t.Named) {s : Secret} (hs : s ∈ t.secrets.rows) :
    normalizeName s.name = s.name ∧ t.secrets.rows.find? (·.name == s.name) = some s := by
  refine ⟨h.trimmed s.name (List.mem_map_of_mem hs), ?_⟩
  cases hfound : t.secrets.rows.find? (·.name == s.name) with
  | none =>
    have hmiss := List.find?_eq_none.mp hfound s hs
    rw [beq_self_eq_true] at hmiss
    exact absurd rfl hmiss
  | some s' =>
    have hname : (s'.name == s.name) = true :=
      List.find?_some (p := fun r : Secret => r.name == s.name) hfound
    rw [List.inj_on_of_nodup_map h.distinct (List.mem_of_find?_eq_some hfound) hs
      (beq_iff_eq.mp hname)]

/-! ## One statement -/

/-- A secret is inserted under a trimmed name. -/
def Trims : sig.Stmt → Prop
  | .inr (.db (.insertSecret s)) => normalizeName s.name = s.name
  | _ => True

/-- An update that leaves the names alone. -/
theorem names_update (rows : List Secret) (p : Secret → Bool) {f : Secret → Secret}
    (hname : ∀ s, (f s).name = s.name) :
    (rows.map fun s => if p s then f s else s).map Secret.name = rows.map Secret.name := by
  rw [List.map_map]
  refine List.map_congr_left fun s _ => ?_
  rw [Function.comp_apply]
  split
  · exact hname s
  · rfl

/-- What a transaction that is open does to the names: what its statement does. -/
theorem named_within {α : Type} {t : Tables} {tx : Nat} {f : Tx → Except Go.Error α × Tables}
    (ht : t.Named) (hf : ∀ x, (f x).2.Named) : (t.within tx f).2.Named := by
  unfold Tables.within
  cases t.txs.get? tx with
  | none => exact ht
  | some x => exact hf x

/-- **A statement keeps the names.** -/
theorem named_exec {certs : Table Store.Certificate} {t : Tables} (ht : t.Named) (s : DbStmt)
    (hs : Trims (.inr (.db s))) : (t.exec certs s).2.Named := by
  cases s with
  | insertSecret s =>
    simp only [Tables.exec]
    cases hconflict : t.secretConflict certs s with
    | some text => exact ht
    | none =>
      have hfree : ¬t.secrets.rows.any (·.name == s.name) = true := by
        intro htaken
        unfold Tables.secretConflict at hconflict
        rw [if_pos htaken] at hconflict
        cases hconflict
      constructor
      · intro n hn
        have hn' : n ∈ (t.secrets.rows ++ [{ s with id := t.secrets.seq + 1 }]).map
          Secret.name := hn
        rw [List.map_append, List.mem_append] at hn'
        rcases hn' with hn' | hn'
        · exact ht.trimmed n hn'
        · rw [List.map_singleton, List.mem_singleton] at hn'
          rw [hn']
          exact hs
      · show ((t.secrets.rows ++ [{ s with id := t.secrets.seq + 1 }]).map Secret.name).Nodup
        rw [List.map_append, List.map_singleton, List.nodup_append]
        refine ⟨ht.distinct, List.nodup_singleton _, ?_⟩
        intro a ha b hb heq
        rw [List.mem_singleton] at hb
        obtain ⟨r, hr, rfl⟩ := List.mem_map.mp ha
        exact hfree (List.any_eq_true.mpr ⟨r, hr, beq_iff_eq.mpr (heq.trans hb)⟩)
  | updateSecretMeta id description labelsJSON rotationDays =>
    refine named_congr (names_update t.secrets.rows (·.id == id) ?_) ht
    exact fun _ => rfl
  | setSecretDisabled id disabled =>
    refine named_congr (names_update t.secrets.rows (·.id == id) ?_) ht
    exact fun _ => rfl
  | deleteSecret id =>
    have hsub : ((t.secrets.delete (·.id == id)).rows.map Secret.name).Sublist t.names :=
      List.filter_sublist.map _
    exact ⟨fun n hn => ht.trimmed n (hsub.subset hn), ht.distinct.sublist hsub⟩
  | commit tx =>
    refine named_within ht fun x => ?_
    show (t.commitTx x).Named
    refine named_congr ?_ ht
    unfold Tables.commitTx Tables.names
    cases x.reserved with
    | none => rfl
    | some r =>
      refine names_update t.secrets.rows (·.id == r.1) ?_
      exact fun _ => rfl
  | reserveVersion tx secretID =>
    refine named_within ht fun x => ?_
    split
    · exact ht
    · exact named_congr (t := t) rfl ht
  | insertVersion tx v =>
    refine named_within ht fun x => ?_
    split
    · exact ht
    · exact named_congr (t := t) rfl ht
  | rollback tx => exact named_within ht fun x => named_congr (t := t) rfl ht
  | insertBinding b =>
    simp only [Tables.exec]
    split
    · exact ht
    · exact named_congr (t := t) rfl ht
  | selectSecret id => exact ht
  | selectSecretByName name => exact ht
  | listSecrets type => exact ht
  | begin => exact named_congr (t := t) rfl ht
  | selectVersion secretID version => exact ht
  | selectLatestVersion secretID => exact ht
  | listVersions secretID => exact ht
  | destroyVersion id => exact named_congr (t := t) rfl ht
  | selectBinding id => exact ht
  | listBindings secretID => exact ht
  | deleteBinding id => exact named_congr (t := t) rfl ht

/-- So does a statement in a run, whatever becomes of it. -/
theorem named_step [Go.Runtime] {e : Store.Env} {w w' : World} {s : sig.Stmt} {x : sig.Ans s}
    (hs : Trims s) (hw : w.vault.Named) (h : exec e w s = some (x, w')) : w'.vault.Named := by
  cases s with
  | inl s =>
    obtain ⟨base, -, rfl⟩ := Sem.sum_inl.mp h
    exact hw
  | inr s =>
    cases s with
    | db s =>
      have hstep : vaultExec e w (.db s) = some (x, w') := h
      unfold vaultExec at hstep
      dsimp only at hstep
      by_cases hwaits : w.vault.waits s = true
      · rw [if_pos hwaits] at hstep
        cases hstep
      · rw [if_neg hwaits] at hstep
        obtain ⟨-, rfl⟩ := Prod.mk.inj (Option.some.inj hstep)
        obtain ⟨-, -, htables⟩ | ⟨-, htables, -⟩ :=
          e.fault.apply_cases w.vault (w.vault.exec w.base.ca.certificates s)
        · show Tables.Named (Store.Fault.apply _ _ _).2
          rw [htables]
          exact hw
        · show Tables.Named (Store.Fault.apply _ _ _).2
          rw [htables]
          exact named_exec hw s hs
    | encapsulate =>
      obtain ⟨-, rfl⟩ := Prod.mk.inj (Option.some.inj h)
      exact hw
    | random =>
      obtain ⟨-, rfl⟩ := Prod.mk.inj (Option.some.inj h)
      exact hw

/-! ## Runs -/

section Requests

variable {ε : Type}

theorem db_trims {s : DbStmt} (h : Trims (.inr (.db s))) : (db s).Uses Trims :=
  .ask h fun _ => .pure _

theorem answer_trims {α : Type} {s : DbStmt} (h : Trims (.inr (.db s)))
    (f : Except Go.Error s.Res → Except Go.Error α) : ((db s).mapResult f).Uses Trims :=
  (db_trims h).mapResult f

/-- Package ca inserts no secret. -/
theorem embed_trims {α : Type} (x : Store.Handler ε α) : x.embed.Uses Trims := by
  have hany : ∀ p : Prog Store.sig (Except ε α), p.Uses fun _ => True := by
    intro p
    induction p with
    | pure a => exact .pure a
    | ask s k ih => exact .ask trivial ih
  exact Prog.Uses.embed (P := fun _ => True) (fun _ _ => trivial) (hany x.run)

theorem audit_trims (actor action target detail : String) :
    (audit actor action target detail : Handler ε Unit).Uses Trims :=
  (embed_trims _).attempt.bind fun _ => uses_pure _

theorem get_trims (name : String) : (get name).Uses Trims :=
  answer_trims (by trivial) _

theorem done_trims {α : Type} {x : Handler Go.Error α} (h : x.Uses Trims) : (done x).Uses Trims :=
  h.mapResult _

theorem draws_trims : draws.Uses Trims := by
  have hrandom (what : String) : (random what).Uses Trims :=
    Uses.mapError (.ask trivial fun _ => .pure _) _
  refine Uses.bind (.ask trivial fun _ => .pure _) fun _ => ?_
  refine (hrandom _).bind fun _ => (hrandom _).bind fun _ => (hrandom _).bind fun _ => ?_
  exact (hrandom _).bind fun _ => (hrandom _).bind fun _ => uses_pure _

theorem secretType_trims (s : Service) (i : CreateInput) : (s.secretType i).Uses Trims := by
  have hpayload (type : SecretType) : (i.payloadType type).Uses Trims :=
    (uses_failIf _ _).bind fun _ => uses_pure _
  unfold Service.secretType
  apply uses_ite
  · intro _
    exact hpayload .kv
  · intro _
    apply uses_ite
    · intro _
      exact hpayload .file
    · intro _
      apply uses_ite
      · intro _
        cases i.certID with
        | none => exact uses_throw _
        | some certID =>
          refine (uses_failIf _ _).bind fun _ => ?_
          exact ((embed_trims _).mapError _).bind fun _ => uses_pure _
      · intro _
        exact uses_throw _

/-- **`Create` trims the name that it is given.** -/
theorem create_trims (s : Service) (i : CreateInput) : (s.create i).Uses Trims := by
  unfold Service.create
  refine (uses_failIf _ _).bind fun _ => (secretType_trims s i).bind fun type => ?_
  refine Uses.bind ?_ fun sec => (audit_trims _ _ _ _).bind fun _ => uses_pure _
  refine Uses.bind (db_trims ?_) fun id => answer_trims (by trivial) _
  exact Go.trimSpace_trimSpace i.name

theorem createSecretVersion_trims (s : Service) (secretID : Nat) (contentType : String)
    (value : Bytes) : (createSecretVersion secretID contentType (s.sealFor value)).Uses Trims := by
  have hwrite (tx : Nat) :
      (writeVersion tx secretID contentType (s.sealFor value)).Uses Trims := by
    refine Uses.bind (answer_trims (by trivial) _) fun next => ?_
    refine Uses.bind ?_ fun sealed => (db_trims (by trivial)).bind fun _ => uses_pure _
    exact (draws_trims.mapError _).bind fun _ => uses_pure _
  refine (db_trims (by trivial)).bind fun tx => (hwrite tx).attempt.bind fun written => ?_
  cases written with
  | error err => exact (db_trims (by trivial)).attempt.bind fun _ => uses_throw _
  | ok next =>
    exact (db_trims (by trivial)).bind fun _ => answer_trims (by trivial) _

theorem materialize_trims (s : Service) (name : String) : (s.materialize name).Uses Trims := by
  have hcertificate (sec : Secret) : (s.materializeCertificate sec).Uses Trims := by
    unfold Service.materializeCertificate
    apply uses_ite
    · intro _
      exact uses_throw _
    · intro _
      cases sec.certID with
      | none => exact uses_throw _
      | some certID =>
        refine ((embed_trims _).mapError _).bind fun cert => ?_
        refine ((embed_trims _).mapError _).bind fun full => (uses_ofExcept _).bind fun key => ?_
        refine ((embed_trims _).mapError _).bind fun caRec => ?_
        exact ((embed_trims _).mapError _).bind fun chain => uses_pure _
  have hopened (sec : Secret)
      (k : SecretVersion → List UInt8 → Handler Go.Error (Secret × List File × Marker))
      (hk : ∀ v pt, (k v pt).Uses Trims) : (do
      let v ← getLatestSecretVersion sec.id
      let pt ← Act.ofExcept (s.openVersion sec v)
      k v pt).Uses Trims := by
    refine Uses.bind (answer_trims (by trivial) _) fun v => ?_
    exact (uses_ofExcept _).bind fun pt => hk v pt
  refine (get_trims name).bind fun sec => (uses_failIf _ _).bind fun _ => ?_
  cases sec.type with
  | certificate => exact (hcertificate sec).bind fun _ => uses_pure _
  | kv => exact hopened sec _ fun _ _ => uses_pure _
  | file => exact hopened sec _ fun _ _ => uses_pure _

/-- **A request inserts no secret under a name with blanks around it.** -/
theorem serve_trims (s : Service) (r : Request) : (s.serve r).Uses Trims := by
  cases r with
  | create i => exact done_trims (create_trims s i)
  | updateMeta name description labelsJSON rotationDays actor =>
    refine done_trims ((get_trims name).bind fun sec => ?_)
    refine Uses.bind (answer_trims (by trivial) _) fun _ => (audit_trims _ _ _ _).bind fun _ => ?_
    exact answer_trims (by trivial) _
  | setDisabled name disabled actor =>
    refine done_trims ((get_trims name).bind fun sec => ?_)
    exact Uses.bind (answer_trims (by trivial) _) fun _ => audit_trims _ _ _ _
  | delete name actor =>
    refine done_trims ((get_trims name).bind fun sec => ?_)
    exact Uses.bind (answer_trims (by trivial) _) fun _ => audit_trims _ _ _ _
  | put name value contentType actor =>
    refine done_trims ((get_trims name).bind fun sec => (uses_failIf _ _).bind fun _ => ?_)
    refine (uses_failIf _ _).bind fun _ => ?_
    refine (createSecretVersion_trims s sec.id contentType value).bind fun v => ?_
    exact (audit_trims _ _ _ _).bind fun _ => uses_pure _
  | destroyVersion name version actor =>
    refine done_trims ((get_trims name).bind fun sec => ?_)
    refine Uses.bind (answer_trims (by trivial) _) fun v => ?_
    exact Uses.bind (answer_trims (by trivial) _) fun _ => audit_trims _ _ _ _
  | materialize name => exact done_trims (materialize_trims s name)
  | bind name namespace_ serviceAccount authMethod expiresAt actor =>
    refine done_trims ((get_trims name).bind fun sec => (uses_ofExcept _).bind fun _ => ?_)
    refine (uses_ofExcept _).bind fun _ => (uses_ofExcept _).bind fun _ => ?_
    refine Uses.bind ?_ fun b => (audit_trims _ _ _ _).bind fun _ => uses_pure _
    exact (db_trims (by trivial)).bind fun id => answer_trims (by trivial) _
  | unbind bindingID actor =>
    exact done_trims (Uses.bind (answer_trims (by trivial) _) fun _ => audit_trims _ _ _ _)
  | ca x => exact done_trims (embed_trims x)

end Requests

/-- **In every run names lead back to their secrets.** -/
theorem serving_named [Go.Runtime] (s : Service) (base : Store.World) (rs : List Request)
    (moves : Pool.Schedule Store.Env) :
    ((s.serving (.fresh base) rs).run exec moves).world.vault.Named := by
  refine Pool.run_uses (P := Trims) (J := fun w : World => w.vault.Named)
    (fun e w stmt x w' hs hw h => named_step hs hw h) (fun p hp => ?_) named_empty moves
  obtain ⟨r, -, rfl⟩ := List.mem_map.mp hp
  exact serve_trims s r

end Goca.Vault
