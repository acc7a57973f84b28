import Goca.Laws.Payloads
import Goca.Laws.SecretNames
import Goca.Lib.Returns

/-!
# The two fetch endpoints agree

The CSI driver and the External Secrets Operator fetch through handlers of their own. Asked at one
moment, by one identity, for one name, they release the same content, and they do exactly where the
secret of that name is enabled, has content, and one of its bindings is in effect and admits the
identity. Where no binding does, what they answer depends on the name alone: it does not tell
whether there is a secret.

At one moment means: the clock stands, and no statement fails. The database is that of any run.
-/

set_option autoImplicit false

namespace Goca.Vault

open Go (Time)
open Goca.K8s (Identity)
open Goca.Pqcrypt (Bytes openText_sealWith)
open Sql (Table)
open Interleave (Act Pool Prog Sem)
open Interleave.Act

/-! ## One moment -/

section Moment

variable [Go.Runtime] {now : Time} {w w' : World} {ε α : Type}

/-- The statements at one moment, at which none of them fails. -/
def still (now : Time) : Sem sig Store.Env World :=
  exec.under fun e => e.fault == .none && e.now == now

theorem still_eq_some {e : Store.Env} {s : sig.Stmt} {x : sig.Ans s × World} :
    still now e w s = some x ↔ (e.fault = .none ∧ e.now = now) ∧ exec e w s = some x := by
  unfold still
  rw [Sem.under_eq_some, Bool.and_eq_true, beq_iff_eq, beq_iff_eq]

omit [Go.Runtime] in
/-- A statement that changes nothing waits for nobody. -/
theorem DbStmt.reads.exec {s : DbStmt} (hs : s.reads) (t : Tables)
    (certs : Table Store.Certificate) : (t.exec certs s).2 = t ∧ t.waits s = false := by
  cases s with
  | selectSecret _ | selectSecretByName _ | listSecrets _ | selectVersion _ _
  | selectLatestVersion _ | listVersions _ | selectBinding _ | listBindings _ => exact ⟨rfl, rfl⟩
  | _ => exact hs.elim

theorem db_still {s : DbStmt} (hs : s.reads) :
    (db s).Settles (still now) w (w.vault.exec w.base.ca.certificates s).1 := by
  obtain ⟨htables, hwaits⟩ := hs.exec w.vault w.base.ca.certificates
  have hexec {e : Store.Env} (he : e.fault = .none) : exec e w (.inr (.db s)) =
      some ((w.vault.exec w.base.ca.certificates s).1, w) := by
    show vaultExec e w (.db s) = _
    unfold vaultExec
    dsimp only
    rw [if_neg (by rw [hwaits]; exact Bool.false_ne_true), he]
    show some ((w.vault.exec w.base.ca.certificates s).1,
      { w with vault := (w.vault.exec w.base.ca.certificates s).2 }) = _
    rw [htables]
  refine settles_ask (S := sig) (s := Sum.inr (Stmt.db s)) (f := fun x => x) (fun e r hr => ?_) ?_
  · obtain ⟨⟨he, -⟩, hr⟩ := still_eq_some.mp hr
    exact Option.some.inj (hr.symm.trans (hexec he))
  · exact ⟨{ now }, still_eq_some.mpr ⟨⟨rfl, rfl⟩, hexec rfl⟩⟩

/-- A statement of package ca that changes nothing at this moment. -/
theorem embed_still {s : Store.Stmt} {f : Store.sig.Ans s → Except ε α} {x : Store.sig.Ans s}
    (hx : ∀ e : Store.Env, e.fault = .none → e.now = now →
      Store.exec e w.base s = some (x, w.base)) :
    (Act.embed (ExceptT.mk (.ask s fun y => .pure (f y)) : Store.Handler ε α) :
      Handler ε α).Settles (still now) w (f x) := by
  have hexec {e : Store.Env} (hf : e.fault = .none) (hn : e.now = now) :
      exec e w (.inl s) = some (x, w) := Sem.sum_inl.mpr ⟨w.base, hx e hf hn, rfl⟩
  refine settles_ask (S := sig) (s := Sum.inl s) (fun e r hr => ?_) ?_
  · obtain ⟨⟨hf, hn⟩, hr⟩ := still_eq_some.mp hr
    exact Option.some.inj (hr.symm.trans (hexec hf hn))
  · exact ⟨{ now }, still_eq_some.mpr ⟨⟨rfl, rfl⟩, hexec rfl rfl⟩⟩

theorem now_still (hnow : 0 < now) :
    (Vault.now : Handler ε Time).Settles (still now) w (.ok now) := by
  refine embed_still (s := .host .now) (f := .ok) fun e _ hn => ?_
  subst hn
  exact if_pos hnow

theorem auditWithIP_still (hnow : 0 < now) {actor action target detail ip : String} :
    (auditWithIP actor action target detail ip : Handler ε Unit).Settles (still now) w
      (.ok ()) := by
  have hinsert : (Ca.insertAudit actor action target detail ip).embed.Settles (still now) w
      (.ok ()) := by
    refine embed_still (s := .audit actor action target detail ip) (f := fun x => x)
      fun e hf hn => ?_
    subst hn
    unfold Store.exec
    rw [if_pos hnow, hf]
    rfl
  exact hinsert.attempt.bind settles_pure

end Moment

/-! ## Who is admitted -/

/-- A binding is in effect at a moment and admits an identity. -/
def SecretBinding.authorizes (b : SecretBinding) (now : Time) (id : Identity) : Bool :=
  b.expiresAt.all (now < ·) && b.admits id.namespace_ id.serviceAccount id.authMethod

section Admission

variable [Go.Runtime] {now : Time} {w w' : World} {ε α : Type}

theorem matchesBinding_still (hnow : 0 < now) (b : SecretBinding) (id : Identity) :
    (matchesBinding b id.namespace_ id.serviceAccount id.authMethod :
      Handler ε Bool).Settles (still now) w (.ok (b.authorizes now id)) := by
  have husable : (b.usable : Handler ε Bool).Settles (still now) w
      (.ok (b.expiresAt.all (now < ·))) := by
    unfold SecretBinding.usable
    cases b.expiresAt with
    | none => exact settles_pure
    | some expires => exact (now_still hnow).bind settles_pure
  exact husable.bind settles_pure

/-- **The loop over the bindings** finds out whether one of them admits the identity. -/
theorem authorized_still (hnow : 0 < now) (id : Identity) (bs : List SecretBinding) :
    (Web.authorized id bs : Handler ε Bool).Settles (still now) w
      (.ok (bs.any (·.authorizes now id))) := by
  induction bs with
  | nil => exact settles_pure
  | cons b bs ih =>
    refine (matchesBinding_still hnow b id).bind ?_
    rw [List.any_cons]
    cases b.authorizes now id with
    | true => exact settles_pure
    | false => exact ih

/-- The secret that a request names. -/
def Tables.named (t : Tables) (name : String) : Option Secret :=
  t.secrets.rows.find? (·.name == normalizeName name)

theorem get_still (name : String) :
    (get name).Settles (still now) w (Store.row (.ok (w.vault.named name))) :=
  (db_still (s := .selectSecretByName (normalizeName name)) trivial).mapResult Store.row

theorem get_found {name : String} {sec : Secret} (h : w.vault.named name = some sec) :
    (get name).Settles (still now) w (.ok sec) := by
  have hget : (get name).Settles (still now) w _ := get_still name
  rw [h] at hget
  exact hget

omit [Go.Runtime] in
/-- The name under which a secret is found leads to it once more. -/
theorem Tables.Named.again {t : Tables} (ht : t.Named) {name : String} {sec : Secret}
    (h : t.named name = some sec) : t.named sec.name = some sec := by
  obtain ⟨htrim, hfind⟩ := ht.find (List.mem_of_find?_eq_some h)
  unfold Tables.named
  rw [htrim]
  exact hfind

/-- The bindings of a secret. -/
def Tables.bindingsOf (t : Tables) (sec : Secret) : List SecretBinding :=
  t.bindings.rows.filter (·.secretID == sec.id)

/-- One of the bindings of a secret is in effect and admits the identity. -/
def Tables.admitted (t : Tables) (now : Time) (id : Identity) (sec : Secret) : Bool :=
  (t.bindingsOf sec).any (·.authorizes now id)

theorem bindings_still {name : String} {sec : Secret} (h : w.vault.named name = some sec) :
    (bindings name).Settles (still now) w (.ok (w.vault.bindingsOf sec)) :=
  (get_found h).bind (db_still (by trivial))

end Admission

/-! ## What is released -/

/-- **`latest` finds the newest version**, where no two rows have one number. -/
theorem latest_iff {t : Tables} (ht : t.Dense) {sid : Nat} {v : SecretVersion} :
    t.latest sid = some v ↔ Newest t sid v := by
  constructor
  · exact latest_eq_some
  · rintro ⟨hmem, hid, hkept, hnewest⟩
    cases hlatest : t.latest sid with
    | none =>
      have hrow : v ∈ t.versions.rows.filter fun v => v.secretID == sid && !v.destroyed :=
        List.mem_filter.mpr ⟨hmem, by rw [hid, hkept, beq_self_eq_true]; rfl⟩
      have hsorted := (List.mem_insertionSort
        (fun a b : SecretVersion => b.version ≤ a.version)).mpr hrow
      rw [List.head?_eq_none_iff.mp hlatest] at hsorted
      cases hsorted
    | some v' =>
      obtain ⟨hmem', hid', hkept', hnewest'⟩ := latest_eq_some hlatest
      have hnum : v'.version = v.version :=
        Nat.le_antisymm (hnewest v' hmem' hid' hkept') (hnewest' v hmem hid hkept)
      rw [ht.single v' hmem' v hmem (hid'.trans hid.symm) hnum]

section Holding

variable [Go.Runtime] {s : Service} {base : Store.World} {calls : List Call}
  {moves : Pool.Schedule Store.Env} {i t : Nat} {now : Time}

/-- What a row holds that was not destroyed. -/
theorem ComesFrom.written {m : Nat} {u v : SecretVersion} (h : ComesFrom s base calls moves m t u v)
    (hd : v.destroyed = false) :
    ∃ name value contentType actor d,
      calls[t]? = some (.request (.put name value contentType actor)) ∧
      v.contentType = contentType ∧ v.payloadSHA256 = ⟨value⟩ ∧
      v.payloadEnc = s.vault.sealWith d value (aad v.secretID v.version) := by
  obtain ⟨name, value, contentType, actor, d, hc, hu⟩ := h.stores.sealed
  refine ⟨name, value, contentType, actor, d, hc, ?_⟩
  rcases h.kept with rfl | rfl
  · exact ⟨congrArg SecretVersion.contentType hu, congrArg SecretVersion.payloadSHA256 hu,
      congrArg SecretVersion.payloadEnc hu⟩
  · cases hd

/-- The content of a secret at a moment of a run: what the `Put` of its newest version was given, or
what package ca answers for its certificate. -/
inductive Holds (s : Service) (base : Store.World) (calls : List Call)
    (moves : Pool.Schedule Store.Env) (i : Nat) (now : Time) (sec : Secret) :
    List File → Marker → Prop
  | payload {v u : SecretVersion} {m t : Nat} {name : String} {value : Bytes}
    {contentType actor : String} (type : sec.type ≠ .certificate)
    (newest : Newest (tablesUpto s base calls moves i) sec.id v)
    (put : calls[t]? = some (.request (.put name value contentType actor)))
    (stores : StoresAt s base calls moves m t u) (secretID : u.secretID = sec.id)
    (version : u.version = v.version) :
    Holds s base calls moves i now sec [⟨fileName contentType, .bytes value⟩] (.sha256 ⟨value⟩)
  | certificate {files : List File} {marker : Marker} (type : sec.type = .certificate)
    (answers : (s.materializeCertificate sec).Returns (still now)
      (s.answeringUpto base calls moves i).world (.ok (files, marker))
      (s.answeringUpto base calls moves i).world) :
    Holds s base calls moves i now sec files marker

/-- **The newest version opens as what its `Put` was given.** -/
theorem holds_iff (hi : i ≤ moves.length) {sec : Secret} (htype : sec.type ≠ .certificate)
    {files : List File} {marker : Marker} :
    (∃ v pt, (tablesUpto s base calls moves i).latest sec.id = some v ∧
      s.openVersion sec v = .ok pt ∧ versionFiles v pt = (files, marker)) ↔
    Holds s base calls moves i now sec files marker := by
  have hdense : (tablesUpto s base calls moves i).Dense := (dense_upto hi).2
  -- a row that is not destroyed opens as the value of the call that stored it
  have hopens {v u : SecretVersion} {m t : Nat} {name : String} {value : Bytes}
      {contentType actor : String} (hnewest : Newest (tablesUpto s base calls moves i) sec.id v)
      (hfrom : ComesFrom s base calls moves m t u v)
      (hput : calls[t]? = some (.request (.put name value contentType actor))) :
      s.openVersion sec v = .ok value ∧
        versionFiles v value = ([⟨fileName contentType, .bytes value⟩], .sha256 ⟨value⟩) := by
    obtain ⟨name', value', contentType', actor', d, hput', htype', hsum, henc⟩ :=
      hfrom.written hnewest.kept
    rw [hput] at hput'
    cases hput'
    constructor
    · unfold Service.openVersion
      rw [if_neg (by rw [hnewest.kept]; exact Bool.false_ne_true), henc, hnewest.secretID,
        openText_sealWith.mpr ⟨rfl, rfl, rfl⟩]
      rfl
    · unfold versionFiles
      rw [htype', hsum]
  constructor
  · rintro ⟨v, pt, hlatest, hopen, hfiles⟩
    have hnewest := (latest_iff hdense).mp hlatest
    obtain ⟨m, t, u, -, hfrom⟩ := version_origin hi hnewest.mem
    obtain ⟨name, value, contentType, actor, d, hput, -⟩ := hfrom.written hnewest.kept
    obtain ⟨hopen', hfiles'⟩ := hopens hnewest hfrom hput
    rw [hopen] at hopen'
    cases hopen'
    rw [hfiles'] at hfiles
    cases hfiles
    refine .payload htype hnewest hput hfrom.stores ?_ ?_
    · exact hfrom.kept.secretID.symm.trans hnewest.secretID
    · exact hfrom.kept.version.symm
  · intro h
    cases h with
    | payload _ hnewest hput hstores hid hnum =>
      obtain ⟨m', t', u', -, hfrom⟩ := version_origin hi hnewest.mem
      obtain ⟨-, rfl, -⟩ := hstores.unique hfrom.stores
        (hid.trans (hnewest.secretID.symm.trans hfrom.kept.secretID))
        (hnum.trans hfrom.kept.version)
      obtain ⟨hopen, hfiles⟩ := hopens hnewest hfrom hput
      exact ⟨_, _, (latest_iff hdense).mpr hnewest, hopen, hfiles⟩
    | certificate h => exact absurd h htype

/-- The statements of package ca that change none of its tables. -/
def Looks (st : sig.Stmt) : Prop :=
  ∃ d : Store.CaStmt, st = .inl (.ca d) ∧ ∀ e (t : Store.CaTables), (t.exec e d).2 = t

theorem caChainFrom_looks (fuel : Nat) (cur : Store.CA) :
    (Ca.caChainFrom fuel cur).Uses fun st => Looks (.inl st) := by
  induction fuel generalizing cur with
  | zero => exact uses_pure []
  | succ fuel ih =>
    unfold Ca.caChainFrom
    refine (uses_ofExcept _).bind fun cert => ?_
    cases cur.parentID with
    | none => exact uses_pure _
    | some p =>
      have hparent : (Store.getCA p).Uses fun st => Looks (.inl st) :=
        Uses.mapResult (.ask ⟨_, rfl, fun _ _ => rfl⟩ fun _ => .pure _) _
      refine hparent.attempt.bind fun parent => ?_
      cases parent with
      | error e => exact uses_pure _
      | ok parent => exact (ih parent).bind fun rest => uses_pure _

/-- **A certificate is materialized** by looking up rows. -/
theorem materializeCertificate_looks (s : Service) (sec : Secret) :
    (s.materializeCertificate sec).Uses Looks := by
  have hembed {ε α : Type} {x : Store.Handler ε α} (hx : x.Uses fun st => Looks (.inl st)) :
      x.embed.Uses Looks := Prog.Uses.embed (fun _ h => h) hx
  have hcertificate (id : Nat) : (Store.getCertificate id).Uses fun st => Looks (.inl st) :=
    Uses.mapResult (.ask ⟨_, rfl, fun _ _ => rfl⟩ fun _ => .pure _) _
  have hca (id : Nat) : (Store.getCA id).Uses fun st => Looks (.inl st) :=
    Uses.mapResult (.ask ⟨_, rfl, fun _ _ => rfl⟩ fun _ => .pure _) _
  unfold Service.materializeCertificate
  apply uses_ite
  · intro _
    exact uses_throw _
  · intro _
    cases sec.certID with
    | none => exact uses_throw _
    | some certID =>
      refine ((hembed (hcertificate certID)).mapError _).bind fun cert => ?_
      refine Uses.bind (Uses.mapError (hembed ?_) _) fun full => ?_
      · exact (hca _).bind fun issuer => (caChainFrom_looks 16 issuer).bind fun _ => uses_pure _
      · refine (uses_ofExcept _).bind fun key => ?_
        refine ((hembed (hca _)).mapError _).bind fun caRec => ?_
        exact ((hembed (caChainFrom_looks 16 caRec)).mapError _).bind fun _ => uses_pure _

/-- A lookup leaves the world alone. -/
theorem Looks.keeps {e : Store.Env} {w w' : World} {st : sig.Stmt} {x : sig.Ans st} (h : Looks st)
    (hx : exec e w st = some (x, w')) (hf : e.fault = .none) : w' = w := by
  obtain ⟨d, rfl, hd⟩ := h
  obtain ⟨base, hbase, rfl⟩ := Sem.sum_inl.mp hx
  unfold Store.exec at hbase
  split at hbase
  · rw [hf] at hbase
    have heq := congrArg Prod.snd (Option.some.inj hbase)
    have hbase : { w.base with ca := (w.base.ca.exec e d).2 } = base := heq
    rw [← hbase, hd]
  · cases hbase

theorem materializeCertificate_keeps {sec : Secret} {w w' : World}
    {r : Except Go.Error (List File × Marker)}
    (h : (s.materializeCertificate sec).Returns (still now) w r w') : w' = w := by
  refine Prog.Uses.returns_keeps (J := fun u => u = w) (materializeCertificate_looks s sec) ?_ h
    rfl
  intro e u st x v hst hx hu
  obtain ⟨⟨hf, -⟩, hx⟩ := still_eq_some.mp hx
  exact (hst.keeps hx hf).trans hu

/-- What is read of a kv or file secret. -/
theorem payload_still (hi : i ≤ moves.length) {w' : World} {sec sec' : Secret}
    (htype : sec.type ≠ .certificate) {files : List File} {marker : Marker} :
    (do
      let v ← getLatestSecretVersion sec.id
      let pt ← Act.ofExcept (s.openVersion sec v)
      let (files, version) := versionFiles v pt
      pure (sec, files, version) : Handler Go.Error (Secret × List File × Marker)).Returns
        (still now) (s.answeringUpto base calls moves i).world (.ok (sec', files, marker)) w' ↔
    (sec' = sec ∧ Holds s base calls moves i now sec files marker) ∧
      (s.answeringUpto base calls moves i).world = w' := by
  have hrow : (getLatestSecretVersion sec.id).Settles (still now)
      (s.answeringUpto base calls moves i).world
      (Store.row (.ok ((tablesUpto s base calls moves i).latest sec.id))) :=
    (db_still (s := .selectLatestVersion sec.id) trivial).mapResult Store.row
  rw [returns_bind, ← holds_iff hi htype]
  constructor
  · rintro ⟨v, u, hv, h⟩
    obtain ⟨hlatest, rfl⟩ := (hrow _ _).mp hv
    obtain ⟨pt, u', hpt, h⟩ := returns_bind.mp h
    obtain ⟨hopen, rfl⟩ := returns_ofExcept.mp hpt
    obtain ⟨heq, rfl⟩ := returns_pure.mp h
    obtain ⟨rfl, hfiles⟩ := Prod.mk.inj heq
    exact ⟨⟨rfl, v, pt, Except.ok.inj (row_eq_ok hlatest.symm), hopen, hfiles⟩, rfl⟩
  · rintro ⟨⟨rfl, v, pt, hv, hpt, hfiles⟩, rfl⟩
    rw [hv] at hrow
    refine ⟨v, _, hrow.returns, returns_bind.mpr ⟨pt, _, returns_ofExcept.mpr ⟨hpt, rfl⟩, ?_⟩⟩
    exact returns_pure.mpr ⟨congrArg (Prod.mk sec') hfiles, rfl⟩

/-- **What `Materialize` answers** at a moment of a run. -/
theorem materialize_still (hi : i ≤ moves.length) {w' : World} {name : String} {sec sec' : Secret}
    (h : (tablesUpto s base calls moves i).named name = some sec) {files : List File}
    {marker : Marker} :
    (s.materialize name).Returns (still now) (s.answeringUpto base calls moves i).world
      (.ok (sec', files, marker)) w' ↔
    (sec' = sec ∧ sec.disabled = false ∧ Holds s base calls moves i now sec files marker) ∧
      (s.answeringUpto base calls moves i).world = w' := by
  unfold Service.materialize
  rw [(get_found h).returns_bind]
  by_cases hd : sec.disabled = true
  · refine iff_of_false (fun hr => ?_) fun hr => ?_
    · cases ((settles_failIf_error hd).bind_error _ _).mp hr |>.1
    · rw [hd] at hr
      cases hr.1.2.1
  · rw [(settles_failIf hd).returns_bind]
    have hd : sec.disabled = false := Bool.not_eq_true _ ▸ hd
    have henabled (P : Prop) : sec' = sec ∧ P ↔ sec' = sec ∧ sec.disabled = false ∧ P :=
      and_congr_right fun _ => (and_iff_right hd).symm
    cases htype : sec.type with
    | certificate =>
      rw [returns_bind]
      constructor
      · rintro ⟨⟨files', marker'⟩, v, hcert, h⟩
        obtain rfl := materializeCertificate_keeps hcert
        obtain ⟨heq, rfl⟩ := returns_pure.mp h
        cases heq
        exact ⟨⟨rfl, hd, .certificate htype hcert⟩, rfl⟩
      · rintro ⟨⟨rfl, -, hholds⟩, rfl⟩
        cases hholds with
        | payload hpayload => exact absurd htype hpayload
        | certificate _ hcert => exact ⟨_, _, hcert, returns_pure.mpr ⟨rfl, rfl⟩⟩
    | kv =>
      have hpayload : sec.type ≠ .certificate := by
        rw [htype]
        decide
      exact (payload_still hi hpayload).trans (and_congr_left fun _ => henabled _)
    | file =>
      have hpayload : sec.type ≠ .certificate := by
        rw [htype]
        decide
      exact (payload_still hi hpayload).trans (and_congr_left fun _ => henabled _)

end Holding

/-! ## The endpoints -/

/-- No binding of a secret of this name admits the identity, if there is one. -/
def Tables.Hides (t : Tables) (now : Time) (id : Identity) (name : String) : Prop :=
  ∀ sec, t.named name = some sec → t.admitted now id sec = false

section Gate

variable [Go.Runtime] {now : Time} {w w' : World} {ε α : Type} {id : Identity} {name : String}
  {ferr gerr : Go.Error → ε} {denied : ε} {k : Secret → Handler ε α}

/-- Who is not admitted is not let through. -/
theorem gate_denied (hnow : 0 < now) (hw : w.vault.Named) (h : w.vault.Hides now id name)
    (hferr : ∀ e, ferr e = denied) : (do
      let sec ← (get name).mapError ferr
      let bs ← (bindings sec.name).mapError gerr
      let admitted ← Web.authorized id bs
      Act.failIf (admitted = false) denied
      k sec : Handler ε α).Settles (still now) w (.error denied) := by
  cases hfound : w.vault.named name with
  | none =>
    have hget : (get name).Settles (still now) w _ := get_still name
    rw [hfound] at hget
    have herr := hget.mapError ferr
    rw [show (Store.row (.ok none)).mapError ferr = .error denied from
      congrArg Except.error (hferr _)] at herr
    exact herr.bind_error
  | some sec =>
    refine ((get_found hfound).mapError ferr).bind ?_
    refine ((bindings_still (hw.again hfound)).mapError gerr).bind ?_
    exact (authorized_still hnow id _).bind (settles_failIf_error (h sec hfound)).bind_error

/-- Who is admitted is. -/
theorem gate_passed (hnow : 0 < now) (hw : w.vault.Named) {sec : Secret}
    (h : w.vault.named name = some sec) (hadmitted : w.vault.admitted now id sec = true)
    {r : Except ε α} : (do
      let sec ← (get name).mapError ferr
      let bs ← (bindings sec.name).mapError gerr
      let admitted ← Web.authorized id bs
      Act.failIf (admitted = false) denied
      k sec : Handler ε α).Returns (still now) w r w' ↔ (k sec).Returns (still now) w r w' := by
  have hnot : ¬ w.vault.admitted now id sec = false := by
    rw [hadmitted]
    exact Bool.true_eq_false_eq_False
  refine ((get_found h).mapError ferr).returns_bind.trans ?_
  refine ((bindings_still (hw.again h)).mapError gerr).returns_bind.trans ?_
  exact (authorized_still hnow id _).returns_bind.trans (settles_failIf hnot).returns_bind

end Gate

section Endpoints

variable [Go.Runtime] {s : Service} {base : Store.World} {calls : List Call}
  {moves : Pool.Schedule Store.Env} {i : Nat} {now : Time} {ε : Type}

omit [Go.Runtime] in
/-- A call inserts a secret under a trimmed name. -/
theorem trims_of_asks {c : Call} {st : sig.Stmt} (h : c.asks st) : Trims st := by
  cases st with
  | inl st => trivial
  | inr st =>
    cases st with
    | db d =>
      cases d with
      | insertSecret sec =>
        rcases h with hread | hwrite
        · exact hread.elim
        · obtain ⟨i, -, hname, -⟩ := Call.writes_insertSecret hwrite
          show normalizeName sec.name = sec.name
          rw [hname]
          exact Go.trimSpace_trimSpace i.name
      | _ => trivial
    | encapsulate => trivial
    | random => trivial

/-- In every run the name of a secret leads back to it. -/
theorem answering_named (s : Service) (base : Store.World) (calls : List Call)
    (moves : Pool.Schedule Store.Env) (i : Nat) : (tablesUpto s base calls moves i).Named := by
  refine Pool.run_uses (P := Trims) (J := fun w : World => w.vault.Named)
    (fun e w st x w' hs hw h => named_step hs hw h) (fun p hp => ?_) named_empty (moves.take i)
  obtain ⟨c, -, rfl⟩ := List.mem_map.mp hp
  exact (answer_asks s c).mono fun _ => trims_of_asks

/-- A secret whose content an identity may have at a moment of a run, and the content. -/
def Releasable (s : Service) (base : Store.World) (calls : List Call)
    (moves : Pool.Schedule Store.Env) (i : Nat) (now : Time) (id : Identity) (name : String)
    (files : List File) (marker : Marker) : Prop :=
  ∃ sec ∈ (tablesUpto s base calls moves i).secrets.rows, sec.name = normalizeName name ∧
    sec.disabled = false ∧
    (∃ b ∈ (tablesUpto s base calls moves i).bindings.rows, b.secretID = sec.id ∧
      b.authorizes now id = true) ∧
    Holds s base calls moves i now sec files marker

omit [Go.Runtime] in
theorem Tables.Named.named_iff {t : Tables} (ht : t.Named) {name : String} {sec : Secret} :
    t.named name = some sec ↔ sec ∈ t.secrets.rows ∧ sec.name = normalizeName name := by
  constructor
  · intro h
    have hname := List.find?_some (p := fun r : Secret => r.name == normalizeName name) h
    exact ⟨List.mem_of_find?_eq_some h, beq_iff_eq.mp hname⟩
  · rintro ⟨hsec, hname⟩
    have hfind := (ht.find hsec).2
    rw [hname] at hfind
    exact hfind

omit [Go.Runtime] in
theorem Tables.admitted_iff {t : Tables} {id : Identity} {sec : Secret} :
    t.admitted now id sec = true ↔
      ∃ b ∈ t.bindings.rows, b.secretID = sec.id ∧ b.authorizes now id = true := by
  simp only [Tables.admitted, Tables.bindingsOf, List.any_eq_true, List.mem_filter, beq_iff_eq,
    and_assoc]

/-- What an identity may have is what `Materialize` answers for a secret that admits it. -/
theorem releasable_iff (hi : i ≤ moves.length) {id : Identity} {name : String} {files : List File}
    {marker : Marker} : Releasable s base calls moves i now id name files marker ↔
      ∃ sec, (tablesUpto s base calls moves i).named name = some sec ∧
        (tablesUpto s base calls moves i).admitted now id sec = true ∧
        ∃ sec' w', (s.materialize sec.name).Returns (still now)
          (s.answeringUpto base calls moves i).world (.ok (sec', files, marker)) w' := by
  have hnamed := answering_named s base calls moves i
  constructor
  · rintro ⟨sec, hsec, hname, hd, hb, hholds⟩
    have hfound := hnamed.named_iff.mpr ⟨hsec, hname⟩
    exact ⟨sec, hfound, Tables.admitted_iff.mpr hb, sec, _,
      (materialize_still hi (hnamed.again hfound)).mpr ⟨⟨rfl, hd, hholds⟩, rfl⟩⟩
  · rintro ⟨sec, hfound, hadmitted, sec', w', h⟩
    obtain ⟨⟨-, hd, hholds⟩, -⟩ := (materialize_still hi (hnamed.again hfound)).mp h
    obtain ⟨hsec, hname⟩ := hnamed.named_iff.mp hfound
    exact ⟨sec, hsec, hname, hd, Tables.admitted_iff.mp hadmitted, hholds⟩

/-! ### Nothing changes -/

theorem materialize_keeps {w w' : World} {name : String}
    {r : Except Go.Error (Secret × List File × Marker)}
    (h : (s.materialize name).Returns (still now) w r w') : w' = w := by
  have hpayload (sec : Secret) {r : Except Go.Error (Secret × List File × Marker)} {w' : World}
      (h : (do
        let v ← getLatestSecretVersion sec.id
        let pt ← Act.ofExcept (s.openVersion sec v)
        let (files, version) := versionFiles v pt
        pure (sec, files, version) : Handler Go.Error (Secret × List File × Marker)).Returns
          (still now) w r w') : w' = w := by
    have hrow : (getLatestSecretVersion sec.id).Settles (still now) w
        (Store.row (.ok (w.vault.latest sec.id))) :=
      (db_still (s := .selectLatestVersion sec.id) trivial).mapResult Store.row
    rcases returns_bind_any.mp h with ⟨v, u, hv, h⟩ | ⟨e, -, he⟩
    · obtain ⟨-, rfl⟩ := (hrow _ _).mp hv
      rcases returns_bind_any.mp h with ⟨pt, u, hpt, h⟩ | ⟨e, -, he⟩
      · obtain ⟨-, rfl⟩ := returns_ofExcept.mp hpt
        exact (returns_pure_any.mp h).2.symm
      · exact (returns_ofExcept_any.mp he).2.symm
    · exact ((hrow _ _).mp he).2.symm
  rcases returns_bind_any.mp h with ⟨sec, u, hget, h⟩ | ⟨e, -, he⟩
  · obtain ⟨-, rfl⟩ := (get_still name _ _).mp hget
    rcases returns_bind_any.mp h with ⟨_, u, hfail, h⟩ | ⟨e, -, he⟩
    · obtain rfl := returns_failIf_world hfail
      cases htype : sec.type with
      | certificate =>
        rw [htype] at h
        rcases returns_bind_any.mp h with ⟨files, u, hcert, hrest⟩ | ⟨e, -, he⟩
        · obtain rfl := materializeCertificate_keeps hcert
          exact (returns_pure_any.mp hrest).2.symm
        · exact materializeCertificate_keeps he
      | kv =>
        rw [htype] at h
        exact hpayload sec h
      | file =>
        rw [htype] at h
        exact hpayload sec h
    · exact (returns_failIf_world he).symm
  · exact ((get_still name _ _).mp he).2.symm

/-! ### What is answered -/

/-- What a fetch of the CSI driver answers whom no binding admits. -/
def hiddenResult (name : String) : Web.VaultFetchResult :=
  { secretName := name, error := Web.errNotFoundOrNotAuthorized }

theorem fetchResult_hidden (hnow : 0 < now) {w : World} (hw : w.vault.Named) {id : Identity}
    {name : String} (h : w.vault.Hides now id name) (ip : String) :
    (Web.fetchResult s id ip name : Handler ε _).Settles (still now) w
      (.ok (hiddenResult name)) := by
  have hone : (Web.fetchOneVaultSecret s id ip name).Settles (still now) w
      (.error (hiddenResult name)) := gate_denied hnow hw h fun _ => rfl
  exact hone.mapResult _

theorem eso_hidden (hnow : 0 < now) {w : World} (hw : w.vault.Named) {id : Identity}
    {key : String} (hkey : key ≠ "") (h : w.vault.Hides now id key) (ip property : String)
    (all : Bool) :
    (Web.apiESOFetchSecret s id ip key property all).Settles (still now) w
      (.error (Web.notFound Web.errNotFoundOrNotAuthorized)) := by
  unfold Web.apiESOFetchSecret
  exact (settles_failIf hkey).bind (gate_denied hnow hw h fun _ => rfl)

omit [Go.Runtime] in
/-- A name that is not hidden is that of a secret. -/
theorem found_of_not_hides {t : Tables} {id : Identity} {name : String}
    (h : ¬ t.Hides now id name) :
    ∃ sec, t.named name = some sec ∧ t.admitted now id sec = true := by
  unfold Tables.Hides at h
  push Not at h
  obtain ⟨sec, hfound, hadmitted⟩ := h
  exact ⟨sec, hfound, Bool.not_eq_false _ ▸ hadmitted⟩

/-- The result of the CSI driver for who is admitted. -/
theorem fetchResult_passed (hnow : 0 < now) {w w' : World} (hw : w.vault.Named) {id : Identity}
    {name : String} {sec : Secret} (h : w.vault.named name = some sec)
    (hadmitted : w.vault.admitted now id sec = true) {ip : String} {r : Web.VaultFetchResult} :
    (Web.fetchResult s id ip name : Handler ε _).Returns (still now) w (.ok r) w' ↔
      (∃ sec' files marker, (s.materialize sec.name).Returns (still now) w
          (.ok (sec', files, marker)) w' ∧
        r = { secretName := name, version := some marker, files }) ∨
      ∃ e, (s.materialize sec.name).Returns (still now) w (.error e) w' ∧
        r = { secretName := name, error := e.text } := by
  have haudit {v : World} {files : List File} {marker : Marker} :
      (do
        auditWithIP id.text "secret.csi_fetch" sec.name
          ("pod=" ++ id.podName ++ " auth_method=" ++ id.authMethod) ip
        pure { secretName := name, version := some marker, files } :
        Handler Web.VaultFetchResult Web.VaultFetchResult).Settles (still now) v
          (.ok { secretName := name, version := some marker, files }) :=
    (auditWithIP_still hnow).bind settles_pure
  unfold Web.fetchResult
  rw [returns_mapResult]
  constructor
  · rintro ⟨x, hx, hr⟩
    rcases returns_bind_any.mp ((gate_passed hnow hw h hadmitted).mp hx) with
      ⟨⟨sec', files, marker⟩, v, hm, hrest⟩ | ⟨e, rfl, hm⟩
    · obtain ⟨rfl, rfl⟩ := (haudit _ _).mp hrest
      cases hr
      exact .inl ⟨sec', files, marker, returns_mapError.mp hm, rfl⟩
    · obtain ⟨m, hmat, heq⟩ := returns_mapResult.mp hm
      cases m with
      | ok a => cases heq
      | error err =>
        cases heq
        cases hr
        exact .inr ⟨err, hmat, rfl⟩
  · rintro (⟨sec', files, marker, hm, rfl⟩ | ⟨e, hm, rfl⟩)
    · refine ⟨.ok { secretName := name, version := some marker, files }, ?_, rfl⟩
      refine (gate_passed hnow hw h hadmitted).mpr (returns_bind_any.mpr (.inl ?_))
      exact ⟨(sec', files, marker), w', returns_mapError.mpr hm, haudit.returns⟩
    · refine ⟨.error { secretName := name, error := e.text }, ?_, rfl⟩
      refine (gate_passed hnow hw h hadmitted).mpr (returns_bind_any.mpr (.inr ?_))
      exact ⟨_, rfl, returns_mapResult.mpr ⟨.error e, hm, rfl⟩⟩

/-- What the other endpoint answers of the files of a secret. -/
def esoAnswer (key property : String) (all : Bool) (name : String) (marker : Marker)
    (files : List File) : Except Auth.ApiError Web.EsoSecret :=
  if all = true then .ok (.all name marker files)
  else (Web.selectFile key property files).map fun file =>
    .one name file.name marker file.data
      (if Web.utf8Valid file.data = true then some file.data else none)

theorem eso_passed (hnow : 0 < now) {w w' : World} (hw : w.vault.Named) {id : Identity}
    {key : String} (hkey : key ≠ "") {sec : Secret} (h : w.vault.named key = some sec)
    (hadmitted : w.vault.admitted now id sec = true) {ip property : String} {all : Bool}
    {r : Web.EsoSecret} :
    (Web.apiESOFetchSecret s id ip key property all).Returns (still now) w (.ok r) w' ↔
      ∃ sec' files marker, (s.materialize sec.name).Returns (still now) w
          (.ok (sec', files, marker)) w' ∧
        esoAnswer key property all sec.name marker files = .ok r := by
  have hrest (v : World) (files : List File) (marker : Marker) :
      (if all = true then do
        auditWithIP id.text "secret.eso_fetch" sec.name
          ("property=* (" ++ toString files.length ++ " files) auth_method=" ++ id.authMethod) ip
        pure (.all sec.name marker files)
      else do
        let file ← Act.ofExcept (Web.selectFile key property files)
        auditWithIP id.text "secret.eso_fetch" sec.name
          ("property=" ++ file.name ++ " auth_method=" ++ id.authMethod) ip
        pure (.one sec.name file.name marker file.data
          (if Web.utf8Valid file.data = true then some file.data else none)) :
        Handler Auth.ApiError Web.EsoSecret).Settles (still now) v
          (esoAnswer key property all sec.name marker files) := by
    unfold esoAnswer
    cases all with
    | true => exact (auditWithIP_still hnow).bind settles_pure
    | false =>
      have hselect : (Act.ofExcept (Web.selectFile key property files) :
          Handler Auth.ApiError File).Settles (still now) v (Web.selectFile key property files) :=
        settles_ofExcept
      cases hfile : Web.selectFile key property files with
      | error e =>
        rw [hfile] at hselect
        exact hselect.bind_error
      | ok file =>
        rw [hfile] at hselect
        exact hselect.bind ((auditWithIP_still hnow).bind settles_pure)
  unfold Web.apiESOFetchSecret
  rw [(settles_failIf hkey).returns_bind, gate_passed hnow hw h hadmitted, returns_bind]
  constructor
  · rintro ⟨⟨sec', files, marker⟩, v, hm, hr⟩
    obtain ⟨hanswer, rfl⟩ := (hrest v files marker _ _).mp hr
    exact ⟨sec', files, marker, returns_mapError.mp hm, hanswer.symm⟩
  · rintro ⟨sec', files, marker, hm, hanswer⟩
    exact ⟨(sec', files, marker), w', returns_mapError.mpr hm,
      (hrest w' files marker _ _).mpr ⟨hanswer.symm, rfl⟩⟩

/-- The results for several names, each as if it had been asked for alone. -/
theorem fetchEach_still (hnow : 0 < now) {w w' : World} (hw : w.vault.Named) {id : Identity}
    {ip : String} {names : List String} {rs : List Web.VaultFetchResult} :
    (Web.fetchEach s id ip names : Handler ε _).Returns (still now) w (.ok rs) w' ↔
      List.Forall₂ (fun name r => ∃ v, (Web.fetchResult s id ip name : Handler ε _).Returns
        (still now) w (.ok r) v) names rs ∧ w = w' := by
  have hkeeps {name : String} {r : Web.VaultFetchResult} {v : World}
      (h : (Web.fetchResult s id ip name : Handler ε _).Returns (still now) w (.ok r) v) :
      v = w := by
    by_cases hhides : w.vault.Hides now id name
    · exact ((fetchResult_hidden hnow hw hhides ip _ _).mp h).2.symm
    · obtain ⟨sec, hfound, hadmitted⟩ := found_of_not_hides hhides
      rcases (fetchResult_passed hnow hw hfound hadmitted).mp h with
        ⟨_, _, _, hm, -⟩ | ⟨_, hm, -⟩
      · exact materialize_keeps hm
      · exact materialize_keeps hm
  induction names generalizing rs w' with
  | nil =>
    unfold Web.fetchEach
    rw [returns_pure, List.forall₂_nil_left_iff, eq_comm (a := [])]
  | cons name names ih =>
    unfold Web.fetchEach
    rw [returns_bind, List.forall₂_cons_left_iff]
    constructor
    · rintro ⟨r, v, hr, h⟩
      obtain rfl := hkeeps hr
      obtain ⟨rs', u, hrs, h⟩ := returns_bind.mp h
      obtain ⟨hall, rfl⟩ := ih.mp hrs
      obtain ⟨rfl, rfl⟩ := returns_pure.mp h
      exact ⟨⟨r, rs', ⟨_, hr⟩, hall, rfl⟩, rfl⟩
    · rintro ⟨⟨r, rs', ⟨v, hr⟩, hall, rfl⟩, rfl⟩
      obtain rfl := hkeeps hr
      refine ⟨r, _, hr, returns_bind.mpr ⟨rs', _, ih.mpr ⟨hall, rfl⟩, ?_⟩⟩
      exact returns_pure.mpr ⟨rfl, rfl⟩

end Endpoints

/-! ## The law -/

/-- **The two endpoints agree** at the end of a run, and at a moment at which the clock stands and
no statement fails. -/
structure FetchesAgree [Go.Runtime] (s : Service) (base : Store.World) (calls : List Call)
    (moves : Pool.Schedule Store.Env) (now : {t : Time // 0 < t}) : Prop where
  /-- The CSI driver gets the content that it may have. -/
  csi : ∀ id ip name files marker,
    (∃ r w', (Web.fetchResult s id ip name : Handler Auth.ApiError _).Returns (still now)
        (s.answeringUpto base calls moves moves.length).world (.ok r) w' ∧
      r.version = some marker ∧ r.files = files) ↔
    Releasable s base calls moves moves.length now id name files marker
  /-- Asked for everything, the other endpoint answers with the same. -/
  eso : ∀ id ip key property files marker, key ≠ "" →
    ((∃ n w', (Web.apiESOFetchSecret s id ip key property true).Returns (still now)
        (s.answeringUpto base calls moves moves.length).world (.ok (.all n marker files)) w') ↔
      Releasable s base calls moves moves.length now id key files marker)
  /-- Asked for one file, it answers with one of these. -/
  part : ∀ id ip key property n p marker data value, key ≠ "" →
    ((∃ w', (Web.apiESOFetchSecret s id ip key property false).Returns (still now)
        (s.answeringUpto base calls moves moves.length).world
        (.ok (.one n p marker data value)) w') ↔
      n = normalizeName key ∧
        value = (if Web.utf8Valid data = true then some data else none) ∧
        ∃ files, Releasable s base calls moves moves.length now id key files marker ∧
          Web.selectFile key property files = .ok ⟨p, data⟩)
  /-- Whom no binding admits gets an answer that depends on the name alone. -/
  hidden : ∀ id name,
    (tablesUpto s base calls moves moves.length).Hides now id name →
    (∀ ip r, (∃ w', (Web.fetchResult s id ip name : Handler Auth.ApiError _).Returns (still now)
        (s.answeringUpto base calls moves moves.length).world r w') ↔
      r = .ok (hiddenResult name)) ∧
    ∀ ip property all r, name ≠ "" →
      ((∃ w', (Web.apiESOFetchSecret s id ip name property all).Returns (still now)
          (s.answeringUpto base calls moves moves.length).world r w') ↔
        r = .error (Web.notFound Web.errNotFoundOrNotAuthorized))
  /-- Names are served one by one: a failure on one secret does not affect the others. -/
  batch : ∀ id ip names results, names ≠ [] →
    ((∃ w', (Web.apiVaultFetch s id ip (.ok names)).Returns (still now)
        (s.answeringUpto base calls moves moves.length).world (.ok ⟨id.text, results⟩) w') ↔
      List.Forall₂ (fun name r => ∃ w',
        (Web.fetchResult s id ip name : Handler Auth.ApiError _).Returns (still now)
          (s.answeringUpto base calls moves moves.length).world (.ok r) w') names results)

/-- **The CSI driver and the External Secrets Operator are told the same**, in every state that any
number of calls can lead to. -/
theorem fetches_agree [Go.Runtime] (s : Service) (base : Store.World) (calls : List Call)
    (moves : Pool.Schedule Store.Env) (now : {t : Time // 0 < t}) :
    FetchesAgree s base calls moves now := by
  have hnow := now.2
  have hi := Nat.le_refl moves.length
  have hnamed := answering_named s base calls moves moves.length
  constructor
  case csi =>
    intro id ip name files marker
    rw [releasable_iff hi]
    constructor
    · rintro ⟨r, w', h, hmarker, hfiles⟩
      by_cases hhides : (tablesUpto s base calls moves moves.length).Hides now id name
      · obtain ⟨heq, -⟩ := (fetchResult_hidden hnow hnamed hhides ip _ _).mp h
        cases heq
        cases hmarker
      · obtain ⟨sec, hfound, hadmitted⟩ := found_of_not_hides hhides
        rcases (fetchResult_passed hnow hnamed hfound hadmitted).mp h with
          ⟨sec', files', marker', hm, rfl⟩ | ⟨e, -, rfl⟩
        · cases hmarker
          cases hfiles
          exact ⟨sec, hfound, hadmitted, sec', w', hm⟩
        · cases hmarker
    · rintro ⟨sec, hfound, hadmitted, sec', w', hm⟩
      exact ⟨{ secretName := name, version := some marker, files }, w',
        (fetchResult_passed hnow hnamed hfound hadmitted).mpr
          (.inl ⟨sec', files, marker, hm, rfl⟩), rfl, rfl⟩
  case eso =>
    intro id ip key property files marker hkey
    rw [releasable_iff hi]
    constructor
    · rintro ⟨n, w', h⟩
      by_cases hhides : (tablesUpto s base calls moves moves.length).Hides now id key
      · cases ((eso_hidden hnow hnamed hkey hhides ip property true _ _).mp h).1
      · obtain ⟨sec, hfound, hadmitted⟩ := found_of_not_hides hhides
        obtain ⟨sec', files', marker', hm, hanswer⟩ :=
          (eso_passed hnow hnamed hkey hfound hadmitted).mp h
        cases hanswer
        exact ⟨sec, hfound, hadmitted, sec', w', hm⟩
    · rintro ⟨sec, hfound, hadmitted, sec', w', hm⟩
      exact ⟨sec.name, w', (eso_passed hnow hnamed hkey hfound hadmitted).mpr
        ⟨sec', files, marker, hm, rfl⟩⟩
  case part =>
    intro id ip key property n p marker data value hkey
    constructor
    · rintro ⟨w', h⟩
      by_cases hhides : (tablesUpto s base calls moves moves.length).Hides now id key
      · cases ((eso_hidden hnow hnamed hkey hhides ip property false _ _).mp h).1
      · obtain ⟨sec, hfound, hadmitted⟩ := found_of_not_hides hhides
        obtain ⟨sec', files, marker', hm, hanswer⟩ :=
          (eso_passed hnow hnamed hkey hfound hadmitted).mp h
        obtain ⟨file, hfile, heq⟩ := Go.map_eq_ok.mp hanswer
        cases heq
        exact ⟨(hnamed.named_iff.mp hfound).2, rfl, files,
          (releasable_iff hi).mpr ⟨sec, hfound, hadmitted, sec', w', hm⟩, hfile⟩
    · rintro ⟨rfl, rfl, files, hreleasable, hfile⟩
      obtain ⟨sec, hfound, hadmitted, sec', w', hm⟩ := (releasable_iff hi).mp hreleasable
      refine ⟨w', (eso_passed hnow hnamed hkey hfound hadmitted).mpr
        ⟨sec', files, marker, hm, Go.map_eq_ok.mpr ⟨_, hfile, ?_⟩⟩⟩
      rw [(hnamed.named_iff.mp hfound).2]
  case hidden =>
    intro id name hhides
    constructor
    · intro ip r
      have hsettles := fetchResult_hidden (ε := Auth.ApiError) (s := s) hnow hnamed hhides ip
      exact ⟨fun ⟨w', h⟩ => ((hsettles r w').mp h).1, fun h => ⟨_, (hsettles r _).mpr ⟨h, rfl⟩⟩⟩
    · intro ip property all r hname
      have hsettles := eso_hidden (s := s) hnow hnamed hname hhides ip property all
      exact ⟨fun ⟨w', h⟩ => ((hsettles r w').mp h).1, fun h => ⟨_, (hsettles r _).mpr ⟨h, rfl⟩⟩⟩
  case batch =>
    intro id ip names results hnames
    have hdecoded : (Act.ofExcept (Auth.decodeJSON (.ok names)) :
        Handler Auth.ApiError (List String)).Settles (still now)
          (s.answeringUpto base calls moves moves.length).world (.ok names) := settles_ofExcept
    have hgate {w' : World} :
        (Web.apiVaultFetch s id ip (.ok names)).Returns (still now)
          (s.answeringUpto base calls moves moves.length).world (.ok ⟨id.text, results⟩) w' ↔
        (Web.fetchEach s id ip names : Handler Auth.ApiError _).Returns (still now)
          (s.answeringUpto base calls moves moves.length).world (.ok results) w' := by
      unfold Web.apiVaultFetch
      rw [hdecoded.returns_bind, (settles_failIf hnames).returns_bind, returns_bind]
      constructor
      · rintro ⟨rs, v, h, hr⟩
        obtain ⟨heq, rfl⟩ := returns_pure.mp hr
        cases heq
        exact h
      · exact fun h => ⟨results, w', h, returns_pure.mpr ⟨rfl, rfl⟩⟩
    constructor
    · rintro ⟨w', h⟩
      exact ((fetchEach_still hnow hnamed).mp (hgate.mp h)).1
    · exact fun h => ⟨_, hgate.mpr ((fetchEach_still hnow hnamed).mpr ⟨h, rfl⟩)⟩

end Goca.Vault
