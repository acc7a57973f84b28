import Goca.Laws.Returned
import Goca.Laws.SecretNames
import Goca.Web.Patch

/-!
# What a change leaves as it was

A request to change a webhook, a trust domain or a secret mentions some fields of it. Those are
stored as they are asked for, in the form that each field is stored in; the others should stay. A
struct with pointers tells what was not mentioned, so a secret keeps all of it. The structs of the
other two have zero values there, which are stored like what was asked for: an endpoint is enabled
again, its filter becomes every event, a trust domain loses its addresses.
-/

set_option autoImplicit false

namespace Goca.Web

open Goca.Auth (ApiError badRequest badRequestFrom decodeJSON pathNumber)
open Goca.Secret (Box boxPrefix encryptAtRest encryptString isEncrypted)
open Goca.Store (Fault)
open Interleave (Act)
open Interleave.Act

/-! ## Statements -/

section Hooks

variable {w w' : Webhooks.World}

/-- The answer of a statement, and the tables after it. -/
theorem hook_returns {s : Webhooks.HookStmt} {x : s.Res}
    (h : (Webhooks.db s).Returns Webhooks.exec w (.ok x) w') :
    ∃ e, (w.exec e s).1 = .ok x ∧ w' = (w.exec e s).2 := by
  obtain ⟨e, y, v, hy, hx, rfl⟩ := h
  obtain rfl : y = .ok x := hx
  obtain ⟨hans, rfl⟩ := Prod.mk.inj (Option.some.inj hy)
  exact ⟨e, Fault.apply_ok hans⟩

end Hooks

section Methods

variable {w w' : K8s.World}

/-- The answer of a statement, and the table after it. -/
theorem method_returns {s : K8s.Stmt} {x : s.Res}
    (h : (K8s.db s).Returns K8s.exec w (.ok x) w') :
    (w.exec s).1 = .ok x ∧ w' = (w.exec s).2 := by
  obtain ⟨fault, y, v, hy, hx, rfl⟩ := h
  obtain rfl : y = .ok x := hx
  obtain ⟨hans, rfl⟩ := Prod.mk.inj (Option.some.inj hy)
  exact Fault.apply_ok hans

/-- A statement that only reads leaves the table as it is, also where it fails. -/
theorem method_reads {s : K8s.Stmt} {r : Except Go.Error s.Res} (hs : (w.exec s).2 = w)
    (h : (K8s.db s).Returns K8s.exec w r w') : w = w' := by
  obtain ⟨fault, y, v, hy, -, rfl⟩ := h
  obtain ⟨-, rfl⟩ := Prod.mk.inj (Option.some.inj hy)
  obtain ⟨-, -, hw⟩ | ⟨-, hw, -⟩ := fault.apply_cases w (w.exec s)
  · exact hw.symm
  · exact (hw.trans hs).symm

end Methods

section Vault

open Goca.Vault (World)

variable [Go.Runtime] {w w' : World}

/-- What a statement over the vault tables leaves, and how it answers. -/
theorem vault_cases {s : Vault.DbStmt} {r : Except Go.Error s.Res}
    (h : (Vault.db s).Returns Vault.exec w r w') : ∃ fault : Fault,
      r = (fault.apply w.vault (w.vault.exec w.base.ca.certificates s)).1 ∧
        w' = { w with
          vault := (fault.apply w.vault (w.vault.exec w.base.ca.certificates s)).2 } := by
  obtain ⟨e, y, v, hy, hx, rfl⟩ := h
  obtain rfl : y = r := hx
  have hstep : Vault.vaultExec e w (.db s) = some (y, v) := hy
  unfold Vault.vaultExec at hstep
  dsimp only at hstep
  by_cases hwaits : w.vault.waits s = true
  · rw [if_pos hwaits] at hstep
    cases hstep
  · rw [if_neg hwaits] at hstep
    obtain ⟨hans, hw⟩ := Prod.mk.inj (Option.some.inj hstep)
    exact ⟨e.fault, hans.symm, hw.symm⟩

/-- The answer of a statement over the vault tables, and the tables after it. -/
theorem vault_returns {s : Vault.DbStmt} {x : s.Res}
    (h : (Vault.db s).Returns Vault.exec w (.ok x) w') :
    (w.vault.exec w.base.ca.certificates s).1 = .ok x ∧
      w' = { w with vault := (w.vault.exec w.base.ca.certificates s).2 } := by
  obtain ⟨fault, hans, rfl⟩ := vault_cases h
  obtain ⟨hdone, hw⟩ := Fault.apply_ok hans.symm
  exact ⟨hdone, by rw [hw]⟩

/-- A statement that only reads leaves the tables as they are, also where it fails. -/
theorem vault_reads {s : Vault.DbStmt} {r : Except Go.Error s.Res}
    (hs : (w.vault.exec w.base.ca.certificates s).2 = w.vault)
    (h : (Vault.db s).Returns Vault.exec w r w') : w = w' := by
  obtain ⟨fault, -, rfl⟩ := vault_cases h
  obtain ⟨-, -, hw⟩ | ⟨-, hw, -⟩ :=
    fault.apply_cases w.vault (w.vault.exec w.base.ca.certificates s)
  · rw [hw]
  · rw [hw, hs]

end Vault

-- A handler is taken apart by the rules, never by running it.
attribute [local irreducible] Interleave.Prog.Returns

/-! ## Fields -/

/-- **A field after a request**: what was not mentioned is as it was, and what was is stored. -/
def Patched {α β : Type} (stored : α → β → Prop) : Option α → β → β → Prop
  | none, old, new => new = old
  | some requested, _, new => stored requested new

/-- What is stored of a field is a function of what was asked for, and of the zero value where
nothing was. -/
theorem patched_iff {α β : Type} {f : α → β} {requested : Option α} {zero : α} {old new : β}
    (h : new = f (requested.getD zero)) :
    Patched (fun a b => b = f a) requested old new ↔ (requested = none → old = f zero) := by
  subst h
  cases requested with
  | none =>
    constructor
    · intro h _
      exact h.symm
    · intro h
      exact (h rfl).symm
  | some a =>
    constructor
    · intro _ h
      cases h
    · intro _
      exact rfl

section Secrets

variable [Box]

/-- A key as it is stored: an empty one leaves the old one, an encrypted one is kept as it is, and
any other is encrypted under some nonce. -/
def KeyStored (old requested new : String) : Prop :=
  if requested = "" then new = old
  else if isEncrypted requested = true then new = requested
  else ∃ nonce, new = boxPrefix ++ Box.sealText nonce requested

/-- **What is stored of a key**, where an empty one leaves the old one. -/
theorem keyStored_of_encryptAtRest {draw : Except Go.Error Nat} {key stored : String}
    (h : encryptAtRest draw key = .ok stored) (old : String) :
    KeyStored old key (if stored = "" then old else stored) := by
  unfold encryptAtRest at h
  unfold KeyStored
  by_cases hempty : key = ""
  · rw [if_pos (.inl hempty)] at h
    cases h
    rw [if_pos hempty, if_pos hempty]
  · rw [if_neg hempty]
    by_cases hencrypted : isEncrypted key = true
    · rw [if_pos (.inr hencrypted)] at h
      cases h
      rw [if_pos hencrypted, if_neg hempty]
    · rw [if_neg (not_or.mpr ⟨hempty, hencrypted⟩)] at h
      rw [if_neg hencrypted]
      unfold encryptString at h
      rw [if_neg hempty] at h
      cases draw with
      | error err => cases h
      | ok nonce =>
        cases h
        refine ⟨nonce, if_neg fun heq => ?_⟩
        have hlist := congrArg String.toList heq
        rw [String.toList_append] at hlist
        exact absurd (List.append_eq_nil_iff.mp hlist).1 (by decide)

/-- The empty key is stored as what was stored before. -/
theorem patched_key {draw : Except Go.Error Nat} {requested : Option String} {stored : String}
    (h : encryptAtRest draw (requested.getD "") = .ok stored) (old : String) :
    Patched (KeyStored old) requested old (if stored = "" then old else stored) := by
  have hstored := keyStored_of_encryptAtRest h old
  cases requested with
  | none => exact hstored
  | some key => exact hstored

end Secrets

/-! ## Webhooks -/

section Webhooks

open Goca.Webhooks (Webhook World)

/-- **A webhook after a request.** Its name is its identity, which no request changes; an empty URL
leaves the old one, and an empty filter is that of every event. -/
structure WebhookPatched [Box] (b : WebhookBody) (old new : Webhook) : Prop where
  name : new.name = old.name
  url : Patched (fun a v => v = if a = "" then old.url else a) b.url old.url new.url
  events : Patched (fun a v => v = if a = "" then "*" else a) b.events old.events new.events
  secret : Patched (KeyStored old.secretEnc) b.secret old.secretEnc new.secretEnc
  disabled : Patched (fun a v => v = a) b.disabled old.disabled new.disabled

/-- **What a request leaves out is what it would be set to**: the filter of every event, and a
webhook that is not disabled. -/
structure WebhookTold (b : WebhookBody) (old : Webhook) : Prop where
  events : b.events = none → old.events = "*"
  disabled : b.disabled = none → old.disabled = false

variable {w w' : World} {id : Nat}

theorem webhooks_row_eq_ok {α : Type} {r : Except Go.Error (Option α)} {a : α}
    (h : Webhooks.row r = .ok a) : r = .ok (some a) := by
  match r with
  | .ok (some b) => cases h; rfl
  | .ok none => cases h
  | .error e => cases h

/-- A webhook that is read is a row, and the tables stay. -/
theorem getWebhook_returns {h : Webhook}
    (hget : (Webhooks.getWebhook id).Returns Webhooks.exec w (.ok h) w') :
    w.webhooks.get? id = some h ∧ w = w' := by
  obtain ⟨r, hdb, hrow⟩ := returns_mapResult.mp hget
  obtain rfl := webhooks_row_eq_ok hrow
  obtain ⟨e, hans, rfl⟩ := hook_returns hdb
  exact ⟨Except.ok.inj hans, rfl⟩

/-- An update finds the row of its webhook. -/
theorem get?_updateWebhook (e : Webhooks.Env) (w : World) (n : Webhook) :
    (w.exec e (.updateWebhook n)).2.webhooks.get? n.id = (w.webhooks.get? n.id).map fun h =>
      { h with
        url := n.url
        events := n.events
        secretEnc := n.secretEnc
        disabled := n.disabled } := by
  refine Sql.Table.get?_update_self (p := (·.id == n.id)) (f := fun h : Webhook => { h with
    url := n.url
    events := n.events
    secretEnc := n.secretEnc
    disabled := n.disabled }) w.webhooks (fun _ => rfl) fun h hid => ?_
  exact beq_iff_eq.mpr hid

/-- What an update leaves in the row of its webhook. -/
def overwritten (n old : Webhook) : Webhook :=
  { old with
    url := n.url
    events := if n.events = "" then "*" else n.events
    secretEnc := if n.secretEnc = "" then old.secretEnc else n.secretEnc
    disabled := n.disabled }

/-- **An update** overwrites the row of its webhook. -/
theorem updateWebhook_returns {n row : Webhook}
    (h : (Webhooks.updateWebhook n).Returns Webhooks.exec w (.ok row) w') : ∃ old,
      w.webhooks.get? n.id = some old ∧ w'.webhooks.get? n.id = some row ∧
        row = overwritten n old := by
  unfold Webhooks.updateWebhook at h
  obtain ⟨secret, v, hsecret, h⟩ := returns_bind.mp h
  obtain ⟨_, u, hupdate, hget⟩ := returns_bind.mp h
  -- The key that an empty one is replaced by is that of the row.
  have hkey : w = v ∧ ∀ old, w.webhooks.get? n.id = some old →
      secret = if n.secretEnc = "" then old.secretEnc else n.secretEnc := by
    by_cases hempty : n.secretEnc = ""
    · rw [if_pos hempty] at hsecret
      obtain ⟨existing, v', hexisting, hpure⟩ := returns_bind.mp hsecret
      obtain ⟨hrow, rfl⟩ := getWebhook_returns hexisting
      obtain ⟨rfl, rfl⟩ := returns_pure.mp hpure
      refine ⟨rfl, fun old hold => ?_⟩
      rw [if_pos hempty, Option.some.inj (hrow.symm.trans hold)]
    · rw [if_neg hempty] at hsecret
      obtain ⟨rfl, rfl⟩ := returns_pure.mp hsecret
      exact ⟨rfl, fun old _ => (if_neg hempty).symm⟩
  obtain ⟨rfl, hkey⟩ := hkey
  obtain ⟨r, hdb, haffected⟩ := returns_mapResult.mp hupdate
  obtain ⟨hrow, rfl⟩ := getWebhook_returns hget
  cases r with
  | error err => cases haffected
  | ok count =>
    obtain ⟨e, -, rfl⟩ := hook_returns hdb
    have hupdated := (get?_updateWebhook e w _).symm.trans hrow
    obtain ⟨old, hold, rfl⟩ := Option.map_eq_some_iff.mp hupdated
    refine ⟨old, hold, hrow, ?_⟩
    rw [hkey old hold]
    rfl

/-- A path that is a number. -/
theorem pathID_eq_ok {path : String} (h : pathID path = .ok id) : pathNumber path = some id := by
  unfold pathID at h
  cases hnumber : pathNumber path with
  | none =>
    rw [hnumber] at h
    cases h
  | some n =>
    rw [hnumber] at h
    cases h
    rfl

variable [Box] [Go.Url.Authority] {draw : Except Go.Error Nat} {path : String} {b : WebhookBody}

/-- **A request that succeeds** overwrites the row of its webhook with what it was decoded into. -/
theorem apiWebhookUpdate_returns {view : WebhookView}
    (h : (apiWebhookUpdate draw path (.ok b)).Returns Webhooks.exec w (.ok view) w') :
    ∃ id old new sec, pathNumber path = some id ∧ w.webhooks.get? id = some old ∧
      w'.webhooks.get? id = some new ∧ view = toWebhookView new ∧
        encryptAtRest draw b.decoded.secret = .ok sec ∧
          new = overwritten {
            id
            name := old.name
            url := if b.decoded.url = "" then old.url else b.decoded.url
            events := b.decoded.events
            secretEnc := sec
            disabled := b.decoded.disabled } old := by
  unfold apiWebhookUpdate at h
  obtain ⟨id, _, hid, h⟩ := returns_bind.mp h
  obtain ⟨hpath, rfl⟩ := returns_ofExcept.mp hid
  obtain ⟨input, _, hinput, h⟩ := returns_bind.mp h
  obtain ⟨hdecoded, rfl⟩ := returns_ofExcept.mp hinput
  obtain rfl := Except.ok.inj hdecoded
  obtain ⟨existing, _, hexisting, h⟩ := returns_bind.mp h
  obtain ⟨hfound, rfl⟩ := getWebhook_returns (returns_mapError.mp hexisting)
  dsimp only at h
  obtain ⟨_, _, hurl, h⟩ := returns_bind.mp h
  obtain ⟨-, rfl⟩ := returns_ofExcept.mp hurl
  obtain ⟨sec, _, hsec, h⟩ := returns_bind.mp h
  obtain ⟨hstored, rfl⟩ := returns_ofExcept.mp hsec
  obtain ⟨row, _, hupdate, h⟩ := returns_bind.mp h
  obtain ⟨rfl, rfl⟩ := returns_pure.mp h
  obtain ⟨old, hold, hnew, rfl⟩ := updateWebhook_returns (returns_mapError.mp hupdate)
  obtain rfl := Option.some.inj (hfound.symm.trans hold)
  exact ⟨id, _, _, sec, pathID_eq_ok hpath, hold, hnew, rfl, Go.mapError_eq_ok.mp hstored, rfl⟩

omit [Go.Url.Authority] in
/-- **What a request leaves of a webhook** is what it should be exactly where it leaves nothing out
that its zero value would change. -/
theorem webhook_patched_iff {old : Webhook} {sec : String}
    (hsec : encryptAtRest draw b.decoded.secret = .ok sec) :
    WebhookPatched b old (overwritten {
      id
      name := old.name
      url := if b.decoded.url = "" then old.url else b.decoded.url
      events := b.decoded.events
      secretEnc := sec
      disabled := b.decoded.disabled } old) ↔ WebhookTold b old := by
  have hevents : Patched (fun a v => v = if a = "" then "*" else a) b.events old.events
      (if b.events.getD "" = "" then "*" else b.events.getD "") ↔
        (b.events = none → old.events = if "" = "" then "*" else "") :=
    patched_iff (f := fun a => if a = "" then "*" else a) rfl
  have hdisabled : Patched (fun a v => v = a) b.disabled old.disabled (b.disabled.getD false) ↔
      (b.disabled = none → old.disabled = false) := patched_iff rfl
  constructor
  · intro h
    exact ⟨hevents.mp h.events, hdisabled.mp h.disabled⟩
  · intro h
    refine ⟨rfl, ?_, hevents.mpr h.events, patched_key hsec old.secretEnc,
      hdisabled.mpr h.disabled⟩
    have hurl : Patched (fun a v => v = if a = "" then old.url else a) b.url old.url
        (if b.url.getD "" = "" then old.url else b.url.getD "") ↔
          (b.url = none → old.url = if "" = "" then old.url else "") :=
      patched_iff (f := fun a => if a = "" then old.url else a) rfl
    exact hurl.mpr fun _ => rfl

end Webhooks

/-! ## Trust domains -/

section Methods

open Goca.K8s (K8sAuthMethod)

/-- **A trust domain after a request.** Its name is its identity, which no request changes, and a
blank audience is the default one. -/
structure MethodPatched [Box] (b : CsiAuthMethodBody) (old new : K8sAuthMethod) : Prop where
  name : new.name = old.name
  audience : Patched (fun a v => v = Store.nz a "goca-csi") b.audience old.audience new.audience
  issuerURL : Patched (fun a v => v = a) b.issuerURL old.issuerURL new.issuerURL
  apiServerURL : Patched (fun a v => v = a) b.apiServerURL old.apiServerURL new.apiServerURL
  caCert : Patched (fun a v => v = a) b.caCert old.caCert new.caCert
  reviewerToken : Patched (KeyStored old.reviewerTokenEnc) b.reviewerToken old.reviewerTokenEnc
    new.reviewerTokenEnc
  insecureSkipVerify : Patched (fun a v => v = a) b.insecureSkipVerify old.insecureSkipVerify
    new.insecureSkipVerify
  disabled : Patched (fun a v => v = a) b.disabled old.disabled new.disabled
  createdBy : new.createdBy = old.createdBy

/-- **What a request leaves out is what it would be set to**: the default audience, no address, no
certificate, and a trust domain that verifies and is not disabled. -/
structure MethodTold (b : CsiAuthMethodBody) (old : K8sAuthMethod) : Prop where
  audience : b.audience = none → old.audience = "goca-csi"
  issuerURL : b.issuerURL = none → old.issuerURL = ""
  apiServerURL : b.apiServerURL = none → old.apiServerURL = ""
  caCert : b.caCert = none → old.caCert = ""
  insecureSkipVerify : b.insecureSkipVerify = none → old.insecureSkipVerify = false
  disabled : b.disabled = none → old.disabled = false

variable {w w' : K8s.World} {id : Nat}

/-- A trust domain that is read is a row, and the table stays. -/
theorem getK8sAuthMethod_returns {m : K8sAuthMethod}
    (h : (K8s.getK8sAuthMethod id).Returns K8s.exec w (.ok m) w') :
    w.get? id = some m ∧ w = w' := by
  obtain ⟨r, hdb, hrow⟩ := returns_mapResult.mp h
  obtain rfl := row_eq_ok hrow
  obtain ⟨hans, rfl⟩ := method_returns hdb
  exact ⟨Except.ok.inj hans, rfl⟩

/-- An update finds the row of its trust domain. -/
theorem get?_updateMethod (w : K8s.World) (m : K8sAuthMethod) :
    (w.exec (.updateMethod m)).2.get? m.id = (w.get? m.id).map m.overwrite := by
  refine Sql.Table.get?_update_self (p := (·.id == m.id)) (f := m.overwrite) w (fun _ => rfl)
    fun r hid => ?_
  exact beq_iff_eq.mpr hid

/-- The trust domain that an update stores, under the token of the row where it has none. -/
def renewed (n old : K8sAuthMethod) : K8sAuthMethod :=
  { n with
    audience := Store.nz n.audience "goca-csi"
    reviewerTokenEnc := if n.reviewerTokenEnc = "" then old.reviewerTokenEnc
      else n.reviewerTokenEnc }.overwrite old

/-- **An update** overwrites the row of its trust domain. -/
theorem updateK8sAuthMethod_returns {n row : K8sAuthMethod}
    (h : (K8s.updateK8sAuthMethod n).Returns K8s.exec w (.ok row) w') : ∃ old,
      w.get? n.id = some old ∧ w'.get? n.id = some row ∧ row = renewed n old := by
  unfold K8s.updateK8sAuthMethod at h
  obtain ⟨token, v, htoken, h⟩ := returns_bind.mp h
  obtain ⟨_, u, hupdate, hget⟩ := returns_bind.mp h
  -- The token that an empty one is replaced by is that of the row.
  have hkey : w = v ∧ ∀ old, w.get? n.id = some old →
      token = if n.reviewerTokenEnc = "" then old.reviewerTokenEnc else n.reviewerTokenEnc := by
    by_cases hempty : n.reviewerTokenEnc = ""
    · rw [if_pos hempty] at htoken
      obtain ⟨existing, v', hexisting, hpure⟩ := returns_bind.mp htoken
      obtain ⟨hrow, rfl⟩ := getK8sAuthMethod_returns hexisting
      obtain ⟨rfl, rfl⟩ := returns_pure.mp hpure
      refine ⟨rfl, fun old hold => ?_⟩
      rw [if_pos hempty, Option.some.inj (hrow.symm.trans hold)]
    · rw [if_neg hempty] at htoken
      obtain ⟨rfl, rfl⟩ := returns_pure.mp htoken
      exact ⟨rfl, fun old _ => (if_neg hempty).symm⟩
  obtain ⟨rfl, hkey⟩ := hkey
  obtain ⟨r, hdb, haffected⟩ := returns_mapResult.mp hupdate
  obtain ⟨hrow, rfl⟩ := getK8sAuthMethod_returns hget
  cases r with
  | error err => cases haffected
  | ok count =>
    obtain ⟨-, rfl⟩ := method_returns hdb
    have hupdated := (get?_updateMethod w _).symm.trans hrow
    obtain ⟨old, hold, rfl⟩ := Option.map_eq_some_iff.mp hupdated
    refine ⟨old, hold, hrow, ?_⟩
    rw [hkey old hold]
    rfl

/-- The refresh of a verifier leaves the table as it is. -/
theorem refreshK8sRegistry_returns {name : String} {r : Except ApiError Unit}
    (h : (refreshK8sRegistry name).Returns K8s.exec w r w') : w = w' := by
  obtain ⟨_, v, hget, hpure⟩ := returns_attempt_bind.mp h
  obtain ⟨-, rfl⟩ := returns_pure_any.mp hpure
  obtain ⟨_, hdb, -⟩ := returns_mapResult.mp hget
  exact method_reads rfl hdb

variable [Box] {draw : Except Go.Error Nat} {path : String} {b : CsiAuthMethodBody}

/-- What a request writes of a trust domain. -/
def CsiAuthMethodBody.written (b : CsiAuthMethodBody) (token : String) (old : K8sAuthMethod) :
    K8sAuthMethod :=
  { old with
    audience := Store.nz b.decoded.audience "goca-csi"
    issuerURL := b.decoded.issuerURL
    apiServerURL := b.decoded.apiServerURL
    caCert := b.decoded.caCert
    reviewerTokenEnc := if token = "" then old.reviewerTokenEnc else token
    insecureSkipVerify := b.decoded.insecureSkipVerify
    disabled := b.decoded.disabled }

/-- **A request that succeeds** overwrites the row of its trust domain with what it was decoded
into. -/
theorem apiCsiAuthMethodUpdate_returns {view : CsiAuthMethodView}
    (h : (apiCsiAuthMethodUpdate draw path (.ok b)).Returns K8s.exec w (.ok view) w') :
    ∃ id old new token, pathNumber path = some id ∧ w.get? id = some old ∧
      w'.get? id = some new ∧ view = toCsiAuthMethodView new ∧
        encryptAtRest draw b.decoded.reviewerToken = .ok token ∧ new = b.written token old := by
  unfold apiCsiAuthMethodUpdate at h
  obtain ⟨id, _, hid, h⟩ := returns_bind.mp h
  obtain ⟨hpath, rfl⟩ := returns_ofExcept.mp hid
  obtain ⟨input, _, hinput, h⟩ := returns_bind.mp h
  obtain ⟨hdecoded, rfl⟩ := returns_ofExcept.mp hinput
  obtain rfl := Except.ok.inj hdecoded
  obtain ⟨existing, _, hexisting, h⟩ := returns_bind.mp h
  obtain ⟨hfound, rfl⟩ := getK8sAuthMethod_returns (returns_mapError.mp hexisting)
  obtain ⟨token, _, htoken, h⟩ := returns_bind.mp h
  obtain ⟨hstored, rfl⟩ := returns_ofExcept.mp htoken
  obtain ⟨row, v, hupdate, h⟩ := returns_bind.mp h
  obtain ⟨_, u, hrefresh, h⟩ := returns_bind.mp h
  obtain ⟨rfl, rfl⟩ := returns_pure.mp h
  obtain rfl := refreshK8sRegistry_returns hrefresh
  obtain ⟨old, hold, hnew, rfl⟩ := updateK8sAuthMethod_returns (returns_mapError.mp hupdate)
  obtain rfl := Option.some.inj (hfound.symm.trans hold)
  exact ⟨id, _, _, token, pathID_eq_ok hpath, hold, hnew, rfl, Go.mapError_eq_ok.mp hstored, rfl⟩

/-- **What a request leaves of a trust domain** is what it should be exactly where it leaves nothing
out that its zero value would change. -/
theorem method_patched_iff {old : K8sAuthMethod} {token : String}
    (htoken : encryptAtRest draw b.decoded.reviewerToken = .ok token) :
    MethodPatched b old (b.written token old) ↔ MethodTold b old := by
  unfold CsiAuthMethodBody.written CsiAuthMethodBody.decoded
  have htext (requested : Option String) (v : String) :
      Patched (fun a v => v = a) requested v (requested.getD "") ↔ (requested = none → v = "") :=
    patched_iff rfl
  have hbool (requested : Option Bool) (v : Bool) :
      Patched (fun a v => v = a) requested v (requested.getD false) ↔
        (requested = none → v = false) := patched_iff rfl
  have haudience : Patched (fun a v => v = Store.nz a "goca-csi") b.audience old.audience
      (Store.nz (b.audience.getD "") "goca-csi") ↔
        (b.audience = none → old.audience = Store.nz "" "goca-csi") := patched_iff rfl
  constructor
  · rintro ⟨-, h₁, h₂, h₃, h₄, -, h₅, h₆, -⟩
    exact ⟨haudience.mp h₁, (htext _ _).mp h₂, (htext _ _).mp h₃, (htext _ _).mp h₄,
      (hbool _ _).mp h₅, (hbool _ _).mp h₆⟩
  · rintro ⟨h₁, h₂, h₃, h₄, h₅, h₆⟩
    exact ⟨rfl, haudience.mpr h₁, (htext _ _).mpr h₂, (htext _ _).mpr h₃, (htext _ _).mpr h₄,
      patched_key htoken old.reviewerTokenEnc, (hbool _ _).mpr h₅, (hbool _ _).mpr h₆, rfl⟩

end Methods

/-! ## Secrets -/

section Secrets

open Goca.Vault (Secret Tables World)

/-- **A secret after a request**: nothing but its description, its labels and its rotation changes,
and none of these that the request does not mention. -/
structure SecretPatched (b : SecretBody) (old new : Secret) : Prop where
  description : Patched (fun a v => v = a) b.description old.description new.description
  labels : Patched (fun a v => v = a) b.labels (labels old) (labels new)
  rotationDays : Patched (fun a v => v = a) b.rotationDays old.rotationDays new.rotationDays
  rest : new = { old with
    description := new.description
    labelsJSON := new.labelsJSON
    rotationDays := new.rotationDays }

/-- A text that begins with a brace is not blank. -/
theorem trimSpace_brace (rest : List Char) : Go.trimSpace (.ofList ('\x7b' :: rest)) ≠ "" := by
  intro h
  have htrim : Go.trimRunes Go.isSpace ('\x7b' :: rest) = [] := by
    have hlist := congrArg String.toList h
    unfold Go.trimSpace at hlist
    rwa [String.toList_ofList, String.toList_ofList] at hlist
  rw [Go.trimRunes_eq, Go.dropWhile_of_head (by
    intro c hc
    cases hc
    decide)] at htrim
  exact absurd (List.rdropWhile_eq_nil_iff.mp htrim _ List.mem_cons_self) (by decide)

/-- **Labels that are stored are read back.** -/
theorem labels_encodeLabels {s : Secret} {m : Go.Json.StringMap}
    (h : s.labelsJSON = encodeLabels m) :
    Go.trimSpace s.labelsJSON ≠ "" ∧ labels s = m := by
  unfold labels
  by_cases hm : m = ∅
  · subst hm
    have hempty : s.labelsJSON = "\x7b\x7d" := h
    have hblank : Go.trimSpace s.labelsJSON ≠ "" := by
      rw [hempty]
      exact trimSpace_brace ['\x7d']
    refine ⟨hblank, ?_⟩
    rw [if_neg hblank, hempty]
    rfl
  · unfold encodeLabels at h
    rw [if_neg hm] at h
    have hblank : Go.trimSpace s.labelsJSON ≠ "" := by
      rw [h]
      exact trimSpace_brace _
    refine ⟨hblank, ?_⟩
    rw [if_neg hblank, h, Go.Json.unmarshal_marshal]
    rfl

variable [Go.Runtime] {w w' : World} {sec : Secret} {id : Nat} {ref : String} {b : SecretBody}

/-- A secret that is read under its number is a row, and the tables stay. -/
theorem getSecret_returns (h : (Vault.getSecret id).Returns Vault.exec w (.ok sec) w') :
    w.vault.secrets.get? id = some sec ∧ w = w' := by
  obtain ⟨r, hdb, hrow⟩ := returns_mapResult.mp h
  obtain rfl := row_eq_ok hrow
  obtain ⟨hans, rfl⟩ := vault_returns hdb
  exact ⟨Except.ok.inj hans, rfl⟩

/-- A secret that is read under its name is the first row with that name. -/
theorem get_returns {name : String} (h : (Vault.get name).Returns Vault.exec w (.ok sec) w') :
    w.vault.secrets.rows.find? (·.name == Vault.normalizeName name) = some sec ∧ w = w' := by
  obtain ⟨r, hdb, hrow⟩ := returns_mapResult.mp h
  obtain rfl := row_eq_ok hrow
  obtain ⟨hans, rfl⟩ := vault_returns hdb
  exact ⟨Except.ok.inj hans, rfl⟩

/-- An audit entry changes nothing of the secret manager. -/
theorem audit_returns {ε : Type} {actor action target detail : String} {r : Except ε Unit}
    (h : (Vault.audit actor action target detail : Vault.Handler ε Unit).Returns Vault.exec w r
      w') : w'.vault = w.vault := by
  have huses : (Vault.audit actor action target detail : Vault.Handler ε Unit).Uses
      fun s => ∃ base, s = Sum.inl base :=
    Uses.bind (Uses.attempt (Interleave.Prog.Uses.embed (P := fun _ => True)
      (fun s _ => ⟨s, rfl⟩) (.ask trivial fun _ => .pure _))) fun _ => uses_pure _
  refine Interleave.Prog.Uses.returns_keeps (J := fun u : World => u.vault = w.vault) huses ?_ h rfl
  rintro e u s x v ⟨base, rfl⟩ hstep hu
  obtain ⟨base', -, rfl⟩ := Interleave.Sem.sum_inl.mp hstep
  exact hu

/-- **What leads to a secret** is its number or its name, and the tables stay. -/
theorem secretByPathID_returns
    (h : (secretByPathID ref).Returns Vault.exec w (.ok sec) w') :
    sec ∈ w.vault.secrets.rows ∧ w = w' := by
  have hbyName {v : World} (h : ((Vault.get ref).mapError ApiError.err).Returns Vault.exec w
      (.ok sec) v) : sec ∈ w.vault.secrets.rows ∧ w = v := by
    obtain ⟨hfound, rfl⟩ := get_returns (returns_mapError.mp h)
    exact ⟨List.mem_of_find?_eq_some hfound, rfl⟩
  unfold secretByPathID at h
  obtain ⟨_, v, hcheck, h⟩ := returns_bind.mp h
  obtain ⟨-, rfl⟩ := returns_failIf.mp hcheck
  dsimp only at h
  cases hnumber : pathNumber ref with
  | none =>
    rw [hnumber] at h
    exact hbyName h
  | some id =>
    rw [hnumber] at h
    obtain ⟨found, v, hfound, hrest⟩ := returns_attempt_bind.mp h
    cases found with
    | ok row =>
      obtain ⟨hrow, rfl⟩ := getSecret_returns hfound
      obtain ⟨rfl, rfl⟩ := returns_pure.mp hrest
      exact ⟨Sql.Table.mem_of_get? hrow, rfl⟩
    | error err =>
      obtain ⟨r, hdb, -⟩ := returns_mapResult.mp hfound
      obtain rfl := vault_reads rfl hdb
      exact hbyName hrest

omit [Go.Runtime] in
/-- An update finds the row of its secret. -/
theorem get?_updateSecretMeta (certs : Sql.Table Store.Certificate) (t : Tables) (id : Nat)
    (description labelsJSON : String) (rotationDays : Int) :
    (t.exec certs (.updateSecretMeta id description labelsJSON rotationDays)).2.secrets.get? id =
      (t.secrets.get? id).map fun s => { s with description, labelsJSON, rotationDays } := by
  refine Sql.Table.get?_update_self (p := (·.id == id))
    (f := fun s : Secret => { s with description, labelsJSON, rotationDays }) t.secrets
    (fun _ => rfl) fun r hid => ?_
  exact beq_iff_eq.mpr hid

/-- **An update of a secret's metadata** finds the secret that it was meant for, and overwrites its
description, its labels and its rotation. -/
theorem updateMeta_returns {old new : Secret} {description labelsJSON actor : String}
    {rotationDays : Int} (hw : w.vault.Named) (hold : old ∈ w.vault.secrets.rows)
    (h : (Vault.updateMeta old.name description labelsJSON rotationDays actor).Returns Vault.exec w
      (.ok new) w') :
    w'.vault.secrets.get? old.id = some new ∧ new = { old with
      description
      labelsJSON := Store.nz labelsJSON "\x7b\x7d"
      rotationDays } := by
  unfold Vault.updateMeta at h
  obtain ⟨sec, _, hget, h⟩ := returns_bind.mp h
  obtain ⟨hfound, rfl⟩ := get_returns hget
  obtain ⟨htrimmed, hfind⟩ := hw.find hold
  rw [htrimmed, hfind] at hfound
  obtain rfl := Option.some.inj hfound
  obtain ⟨_, v, hupdate, h⟩ := returns_bind.mp h
  obtain ⟨_, u, haudit, h⟩ := returns_bind.mp h
  obtain ⟨hrow, rfl⟩ := getSecret_returns h
  rw [audit_returns haudit] at hrow ⊢
  obtain ⟨r, hdb, haffected⟩ := returns_mapResult.mp hupdate
  cases r with
  | error err => cases haffected
  | ok count =>
    obtain ⟨-, rfl⟩ := vault_returns hdb
    refine ⟨hrow, ?_⟩
    have hupdated := (get?_updateSecretMeta w.base.ca.certificates w.vault old.id _ _ _).symm.trans
      hrow
    have hrowOld : w.vault.secrets.get? old.id = some old := Sql.Table.get?_of_mem hold
    rw [hrowOld] at hupdated
    exact (Option.some.inj hupdated).symm

/-- **A request that succeeds** changes what it mentions of the secret that its path leads to. -/
theorem apiSecretUpdate_returns {new : Secret} {actor : String} (hw : w.vault.Named)
    (h : (apiSecretUpdate ref (.ok b) actor).Returns Vault.exec w (.ok new) w') : ∃ old,
      (secretByPathID ref).Returns Vault.exec w (.ok old) w ∧
        w.vault.secrets.get? old.id = some old ∧ w'.vault.secrets.get? old.id = some new ∧
          SecretPatched b old new := by
  unfold apiSecretUpdate at h
  obtain ⟨old, _, hpath, h⟩ := returns_bind.mp h
  obtain ⟨hold, rfl⟩ := secretByPathID_returns hpath
  obtain ⟨body, _, hbody, h⟩ := returns_bind.mp h
  obtain ⟨hdecoded, rfl⟩ := returns_ofExcept.mp hbody
  obtain rfl := Except.ok.inj hdecoded
  obtain ⟨hnew, heq⟩ := updateMeta_returns hw hold (returns_mapError.mp h)
  refine ⟨old, hpath, Sql.Table.get?_of_mem hold, hnew, ?_⟩
  -- What is encoded of labels is never blank, so it is stored as it is.
  have hencoded := labels_encodeLabels
    (s := { old with labelsJSON := encodeLabels (b.labels.getD (labels old)) }) rfl
  have hnz : Store.nz (encodeLabels (b.labels.getD (labels old))) "\x7b\x7d" =
      encodeLabels (b.labels.getD (labels old)) := if_neg hencoded.1
  rw [hnz] at heq
  have hlabels : labels new = b.labels.getD (labels old) := by
    rw [heq]
    exact hencoded.2
  subst heq
  refine ⟨?_, ?_, ?_, rfl⟩
  · cases b.description with
    | none => exact rfl
    | some description => exact rfl
  · rw [hlabels]
    cases b.labels with
    | none => exact rfl
    | some m => exact rfl
  · cases b.rotationDays with
    | none => exact rfl
    | some days => exact rfl

end Secrets

/-! ## The law -/

/-- **A request keeps what it does not mention**, and stores what it does: of a secret always, and
of a webhook or a trust domain exactly where nothing that it leaves out has another value than what
its zero value is stored as. -/
theorem patch_keeps_iff [Box] [Go.Url.Authority] [Go.Runtime] :
    (∀ (draw : Except Go.Error Nat) (path : String) (b : WebhookBody) (w w' : Webhooks.World)
      (view : WebhookView),
      (apiWebhookUpdate draw path (.ok b)).Returns Webhooks.exec w (.ok view) w' →
        ∃ id old new, pathNumber path = some id ∧ w.webhooks.get? id = some old ∧
          w'.webhooks.get? id = some new ∧ (WebhookPatched b old new ↔ WebhookTold b old)) ∧
    (∀ (draw : Except Go.Error Nat) (path : String) (b : CsiAuthMethodBody) (w w' : K8s.World)
      (view : CsiAuthMethodView),
      (apiCsiAuthMethodUpdate draw path (.ok b)).Returns K8s.exec w (.ok view) w' →
        ∃ id old new, pathNumber path = some id ∧ w.get? id = some old ∧
          w'.get? id = some new ∧ (MethodPatched b old new ↔ MethodTold b old)) ∧
    ∀ (s : Vault.Service) (base : Store.World) (rs : List Vault.Request)
      (moves : Interleave.Pool.Schedule Store.Env) (ref : String) (b : SecretBody) (actor : String)
      (w w' : Vault.World) (new : Vault.Secret),
      w = ((s.serving (.fresh base) rs).run Vault.exec moves).world →
        (apiSecretUpdate ref (.ok b) actor).Returns Vault.exec w (.ok new) w' →
          ∃ old, (secretByPathID ref).Returns Vault.exec w (.ok old) w ∧
            w.vault.secrets.get? old.id = some old ∧ w'.vault.secrets.get? old.id = some new ∧
              SecretPatched b old new := by
  refine ⟨?_, ?_, ?_⟩
  · intro draw path b w w' view h
    obtain ⟨id, old, new, sec, hpath, hold, hnew, -, hsec, rfl⟩ := apiWebhookUpdate_returns h
    exact ⟨id, old, _, hpath, hold, hnew, webhook_patched_iff hsec⟩
  · intro draw path b w w' view h
    obtain ⟨id, old, new, token, hpath, hold, hnew, -, htoken, rfl⟩ :=
      apiCsiAuthMethodUpdate_returns h
    exact ⟨id, old, _, hpath, hold, hnew, method_patched_iff htoken⟩
  · rintro s base rs moves ref b actor w w' new rfl h
    exact apiSecretUpdate_returns (Vault.serving_named s base rs moves) h

/-! ### An endpoint that is moved, and enabled by that -/

section Sample

/-- Encryption that shows its plaintext. -/
@[reducible] def plainBox : Box := ⟨fun _ s => s⟩

attribute [local instance] plainBox Go.Url.plainAuthority Go.asciiRuntime

/-- A webhook that was disabled. -/
def hooks : Webhooks.World := .fresh (Sql.Table.empty.insert (fun id => {
  id, name := "chat", url := "https://chat.internal/old", events := "ca", disabled := true })
  fun _ => rfl)

/-- A request that moves it. -/
def urlOnly : WebhookBody := { url := some "https://chat.internal/new" }

/-- A trust domain, and a request that disables it. -/
def domains : K8s.World := Sql.Table.empty.insert (fun id => {
  id, name := "prod", audience := "goca-csi", issuerURL := "https://k8s.internal" }) fun _ => rfl

def disabledOnly : CsiAuthMethodBody := { disabled := some true }

/-- The run that creates one secret. -/
def oneSecret : Interleave.Pool.Schedule Store.Env := List.replicate 3 (0, { now := 1 })

def manager : Vault.Service := { vault := ⟨⟨[]⟩, .derived []⟩ }

def oneSecretWorld : Vault.World :=
  ((manager.serving (.fresh (.empty .empty)) [.create { name := " team/db " }]).run Vault.exec
    oneSecret).world

def descriptionOnly : SecretBody := { description := some "the database" }

/-- Each of the three requests succeeds, and its resource is as it should be under the condition. -/
theorem patch_keeps_samples :
    (∃ w' view, (apiWebhookUpdate (.ok 0) "1" (.ok urlOnly)).Returns Webhooks.exec hooks
      (.ok view) w' ∧ ∃ id old new, pathNumber "1" = some id ∧
        hooks.webhooks.get? id = some old ∧ w'.webhooks.get? id = some new ∧
          (WebhookPatched urlOnly old new ↔ WebhookTold urlOnly old)) ∧
    (∃ w' view, (apiCsiAuthMethodUpdate (.ok 0) "1" (.ok disabledOnly)).Returns K8s.exec domains
      (.ok view) w' ∧ ∃ id old new, pathNumber "1" = some id ∧ domains.get? id = some old ∧
        w'.get? id = some new ∧ (MethodPatched disabledOnly old new ↔
          MethodTold disabledOnly old)) ∧
    ∃ w' new, (apiSecretUpdate "team/db" (.ok descriptionOnly) "root").Returns Vault.exec
      oneSecretWorld (.ok new) w' ∧ ∃ old,
        (secretByPathID "team/db").Returns Vault.exec oneSecretWorld (.ok old) oneSecretWorld ∧
          oneSecretWorld.vault.secrets.get? old.id = some old ∧
            w'.vault.secrets.get? old.id = some new ∧ SecretPatched descriptionOnly old new := by
  refine ⟨?_, ?_, ?_⟩
  · obtain ⟨view, w', h, -⟩ := exists_returns Webhooks.exec { now := 0 }
      (apiWebhookUpdate (.ok 0) "1" (.ok urlOnly)) hooks (by decide +kernel)
    exact ⟨w', view, h, patch_keeps_iff.1 _ _ _ _ _ _ h⟩
  · obtain ⟨view, w', h, -⟩ := exists_returns K8s.exec .none
      (apiCsiAuthMethodUpdate (.ok 0) "1" (.ok disabledOnly)) domains (by decide +kernel)
    exact ⟨w', view, h, patch_keeps_iff.2.1 _ _ _ _ _ _ h⟩
  · obtain ⟨new, w', h, -⟩ := exists_returns Vault.exec { now := 1 }
      (apiSecretUpdate "team/db" (.ok descriptionOnly) "root") oneSecretWorld
      (by decide +kernel)
    exact ⟨w', new, h, patch_keeps_iff.2.2 manager (.empty .empty) _ oneSecret _ _ _ _ _ _ rfl h⟩

/-- **A webhook that is moved is enabled again**, and told of every event. -/
theorem moved_webhook_enabled : ¬ ∀ (draw : Except Go.Error Nat) (path : String) (b : WebhookBody)
    (w w' : Webhooks.World) (view : WebhookView) (id : Nat) (old new : Webhooks.Webhook),
    (apiWebhookUpdate draw path (.ok b)).Returns Webhooks.exec w (.ok view) w' →
      pathNumber path = some id → w.webhooks.get? id = some old →
        w'.webhooks.get? id = some new → WebhookPatched b old new := by
  intro hall
  obtain ⟨view, w', h, heval⟩ := exists_returns Webhooks.exec { now := 0 }
    (apiWebhookUpdate (.ok 0) "1" (.ok urlOnly)) hooks (by decide +kernel)
  have hnew : ((apiWebhookUpdate (.ok 0) "1" (.ok urlOnly)).run.evalWith Webhooks.exec
      { now := 0 } hooks).bind (fun r => r.2.webhooks.get? 1) = some {
        id := 1
        name := "chat"
        url := "https://chat.internal/new"
        events := "*" } := by
    decide +kernel
  rw [heval] at hnew
  have hpatched := hall (.ok 0) "1" urlOnly hooks w' view 1 _ _ h (by decide +kernel) rfl hnew
  have hkept : false = true := hpatched.disabled
  cases hkept

end Sample

end Goca.Web
