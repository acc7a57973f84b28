import Goca.Laws.Evidence

/-!
# Authenticated requests

A request of package acme is accepted after its nonce was redeemed, and one that an account signs
after its url was compared with the endpoint, the account of its kid was found valid, and its
signature verified under the key stored for that account. `serve_accepted` proves this of every
endpoint. The rest is about runs: a nonce comes from the one call that drew its token, one delete
redeems it, and a deactivated account stays deactivated.
-/

set_option autoImplicit false

namespace Goca

open Goca.Store
open Goca.Acme (Body ParsedJWS Problem)
open Interleave (Act Prog Pool Trace Lawful own)
open Interleave.Act

/-! ## What `authenticate` has checked -/

section Evidence

variable {may : Trace sig → Stmt → Prop} {ε : Type} {q : Trace sig}

/-- A nonce was redeemed: the clock was read, and then the delete that asked for the nonce at that
time removed one row. -/
def Redeemed (n : String) (q : Trace sig) : Prop :=
  ∃ t q₁, Saw q₁ (.host .now) t ∧ q₁ ++ [⟨.acme (.consumeAcmeNonce n t), .ok (1 : Nat)⟩] <+: q

theorem Redeemed.extend {n : String} {q' : Trace sig} (h : Redeemed n q) (hq : q <+: q') :
    Redeemed n q' := by
  obtain ⟨t, q₁, ht, hn⟩ := h
  exact ⟨t, q₁, ht, hn.trans hq⟩

/-- The account of a kid was read, and was valid. -/
structure Resolved (kid : String) (a : AcmeAccount) (q : Trace sig) : Prop where
  read : ∃ id, Acme.accountIDOf kid = some id ∧
    Saw q (.acme (.selectAcmeAccount id)) (.ok (some a))
  valid : a.status = .valid

theorem Resolved.extend {kid : String} {a : AcmeAccount} {q' : Trace sig} (h : Resolved kid a q)
    (hq : q <+: q') : Resolved kid a q' := by
  obtain ⟨⟨id, hid, hread⟩, hvalid⟩ := h
  exact ⟨⟨id, hid, hread.extend hq⟩, hvalid⟩

/-- A request was signed for this endpoint by this account. -/
structure Authenticated (url : String) (j : ParsedJWS) (a : AcmeAccount) (q : Trace sig) :
    Prop where
  endpoint : j.url = url
  account : Resolved j.keyID a q
  verified : j.verify a.jwk = .ok ()

theorem Authenticated.extend {url : String} {j : ParsedJWS} {a : AcmeAccount} {q' : Trace sig}
    (h : Authenticated url j a q) (hq : q <+: q') : Authenticated url j a q' :=
  ⟨h.endpoint, h.account.extend hq, h.verified⟩

theorem checkURL_ok {j : ParsedJWS} {want : String} (h : Acme.checkURL j want = .ok ()) :
    j.url = want := by
  unfold Acme.checkURL at h
  split at h
  · cases h
  · next hurl => exact not_not.mp hurl

theorem consumeNonce_traced (n : String) (hallow : Allows [.consumeNonce] may q) :
    (Acme.consumeNonce n : Handler ε Bool).Traced may (fun q' r => r = true → Redeemed n q') q := by
  refine traced_ite (fun _ => traced_pure fun h => nomatch h) fun _ => ?_
  refine (now_saw hallow.now).bind fun q₁ t hq₁ ht => ?_
  have hmay := hallow.extend hq₁ q₁ (.acme (.consumeAcmeNonce n t)) List.prefix_rfl
    (List.mem_singleton_self _)
  have hconsume : (consumeAcmeNonce n t).Traced may (fun q' r => r = true →
      q' = q₁ ++ [⟨.acme (.consumeAcmeNonce n t), .ok (1 : Nat)⟩]) q₁ := by
    refine (acme_traced hmay).mapResult fun q' r b _ hr hb htrue => ?_
    subst htrue
    exact hr _ (affectedOne_true hb)
  refine Traced.bind (Traced.attempt hconsume fun q' r _ hr => hr) fun q₂ r hq₂ hr => ?_
  refine traced_pure fun htrue => ⟨t, q₁, ht, ?_⟩
  cases r with
  | ok b => exact ⟨[], by rw [List.append_nil, hr b rfl htrue]⟩
  | error e => cases htrue

theorem checkNonce_traced (j : ParsedJWS) (hallow : Allows [.consumeNonce] may q) :
    (Acme.checkNonce j).Traced may (fun q' _ => Redeemed j.nonce q') q := by
  refine (consumeNonce_traced j.nonce hallow).bind fun q₁ r _ hr => ?_
  exact traced_failIf fun h => hr (by simpa using h)

theorem resolveAccount_traced (kid : String) (hread : AllowsReads may q) :
    (Acme.resolveAccount kid).Traced may (fun q' a => Resolved kid a q') q := by
  unfold Acme.resolveAccount
  cases hid : Acme.accountIDOf kid with
  | none => exact traced_throw
  | some id =>
    have hget : (getAcmeAccount id).Traced may _ q :=
      row_traced (hread.acme (.selectAcmeAccount id) trivial)
    refine Traced.bind (Traced.mapError hget) fun q₁ a _ ha => ?_
    refine traced_failIf_eq.bind fun q₂ _ hq₂ ⟨_, hvalid⟩ => traced_pure ?_
    exact ⟨⟨id, hid, ha.extend hq₂⟩, not_not.mp hvalid⟩

/-- **Authentication**: what every endpoint that an account signs has checked before it goes on. -/
theorem authenticate_traced (body : Body) (url : String)
    (hallow : Allows [.consumeNonce, .touchAccount] may q) :
    (Acme.authenticate body url).Traced may (fun q' ar => Acme.parseJWS body = .ok ar.jws ∧
      Redeemed ar.jws.nonce q' ∧ Authenticated url ar.jws ar.account q') q := by
  refine traced_ofExcept_eq.bind fun q₁ j hq₁ ⟨_, hparse⟩ => ?_
  refine traced_ofExcept_eq.bind fun q₂ _ hq₂ ⟨_, hurl⟩ => ?_
  have hallow₂ := hallow.extend (hq₁.trans hq₂)
  refine (checkNonce_traced j (hallow₂.mono (by decide))).bind fun q₃ _ hq₃ hnonce => ?_
  refine traced_failIf_eq.bind fun q₄ _ hq₄ _ => ?_
  have hallow₄ := hallow₂.extend (hq₃.trans hq₄)
  refine (resolveAccount_traced j.keyID hallow₄.reads).bind fun q₅ a hq₅ ha => ?_
  refine traced_ofExcept_eq.bind fun q₆ _ hq₆ ⟨_, hverify⟩ => ?_
  have htouch : (touchAcmeAccountUsed a.id).Traced may (fun _ _ => True) q₆ :=
    (hallow₄.extend (hq₅.trans hq₆)).traced (acme_uses (show Effect.touchAccount ∈ _ by decide))
  refine Traced.bind (htouch.attempt fun _ _ _ _ => trivial) fun q₇ _ hq₇ _ => traced_pure ?_
  have hq₅₇ := hq₆.trans hq₇
  exact ⟨mapError_ok hparse, hnonce.extend ((hq₄.trans hq₅).trans hq₅₇),
    checkURL_ok hurl, ha.extend hq₅₇, mapError_ok hverify⟩

/-- A revocation that names an account resolves it and verifies the signature under its key. -/
theorem revoker_traced (j : ParsedJWS) (hread : AllowsReads may q) :
    (Acme.revoker j).Traced may (fun q' _ => j.keyID ≠ "" →
      ∃ a, Resolved j.keyID a q' ∧ j.verify a.jwk = .ok ()) q := by
  refine traced_ite (fun _ => ?_) fun hkid => ?_
  · refine (resolveAccount_traced j.keyID hread).bind fun q₁ a _ ha => ?_
    refine traced_ofExcept_eq.bind fun q₂ _ hq₂ ⟨_, hverify⟩ => traced_pure fun _ => ?_
    exact ⟨a, ha.extend hq₂, mapError_ok hverify⟩
  · exact traced_ofExcept_eq.bind fun q₂ _ _ _ => traced_pure fun h => absurd h hkid

end Evidence

/-! ## What an accepted request rests on -/

/-- The signed body of a request of package acme. -/
def Request.body? : Request → Option Body
  | .newAccount body | .getAccount _ body | .newOrder body | .getOrder _ body | .finalize _ body
  | .getAuthorization _ body | .getChallenge _ body | .getCertificatePEM _ body
  | .revokeCert body => some body
  | _ => none

/-- Whether a body names an account as its signer. -/
def signedByAccount (body : Body) : Bool :=
  match Acme.parseJWS body with
  | .ok j => j.keyID != ""
  | .error _ => false

/-- The endpoint of a call that an account signs. -/
def Call.accountEndpoint? (c : Call) : Option String :=
  match c.request with
  | .getAccount id _ => some (c.replica.accountURL id)
  | .newOrder _ => some c.replica.newOrderURL
  | .getOrder id _ => some (c.replica.orderURL id)
  | .finalize id _ => some (c.replica.finalizeURL id)
  | .getAuthorization id _ => some (c.replica.authzURL id)
  | .getChallenge id _ => some (c.replica.challengeURL id)
  | .getCertificatePEM id _ => some (c.replica.certURL id)
  | .revokeCert body => if signedByAccount body then some c.replica.revokeCertURL else none
  | _ => none

/-- What a call has checked of its body: the nonce and, where an account signs it, the account. -/
def Checked (c : Call) (body : Body) (q : Trace sig) : Prop :=
  ∃ j, Acme.parseJWS body = .ok j ∧ Redeemed j.nonce q ∧
    ∀ url, c.accountEndpoint? = some url → ∃ a, Authenticated url j a q

theorem Checked.extend {c : Call} {body : Body} {q q' : Trace sig} (h : Checked c body q)
    (hq : q <+: q') : Checked c body q' := by
  obtain ⟨j, hparse, hnonce, hauth⟩ := h
  refine ⟨j, hparse, hnonce.extend hq, fun url hurl => ?_⟩
  obtain ⟨a, ha⟩ := hauth url hurl
  exact ⟨a, ha.extend hq⟩

/-- A call that succeeds has checked its body. -/
def AcceptedOn (c : Call) (q : Trace sig) (r : Reply) : Prop :=
  r.succeeded = true → ∀ body, c.request.body? = some body → Checked c body q

section Endpoints

variable {c : Call} {body : Body} {q : Trace sig} {α : Type}

/-- Everything is allowed: what is asked does not matter here, only what was checked. -/
abbrev Anything : Trace sig → Stmt → Prop := fun _ _ => True

theorem allows_anything (ks : List Effect) (q : Trace sig) : Allows ks Anything q :=
  fun _ _ _ _ => trivial

theorem replying_accepted {x : Handler Problem α} {ok : α → Reply}
    (hbody : c.request.body? = some body) (hx : x.Traced Anything (fun q' _ => Checked c body q') []) :
    (replying .refused ok x).Traced Anything (AcceptedOn c) [] := by
  refine Prog.Traced.bind hx fun q' r _ hr => ?_
  cases r with
  | ok a =>
    refine Prog.traced_pure.mpr fun _ body' hbody' => ?_
    obtain rfl : body = body' := Option.some.inj (hbody.symm.trans hbody')
    exact hr a rfl
  | error p => exact Prog.traced_pure.mpr fun h => nomatch h

/-- Whatever an endpoint does after `authenticate`, it does for a request it has checked. -/
theorem authenticate_checked {url : String} (hend : c.accountEndpoint? = some url)
    (f : Acme.AuthedRequest → Handler Problem α) :
    (Acme.authenticate body url >>= f).Traced Anything (fun q' _ => Checked c body q') q := by
  refine (authenticate_traced body url (allows_anything _ q)).bind fun q₁ ar _ h => ?_
  obtain ⟨hparse, hnonce, hauth⟩ := h
  have hchecked : Checked c body q₁ := by
    refine ⟨ar.jws, hparse, hnonce, fun url' hurl => ?_⟩
    obtain rfl : url = url' := Option.some.inj (hend.symm.trans hurl)
    exact ⟨ar.account, hauth⟩
  exact traced_any _ fun q' _ hq => hchecked.extend hq

variable [Go.Runtime]

/-- `newAccount` checks the nonce before it looks at the key. -/
theorem newAccount_checked (hend : c.accountEndpoint? = none) (s : Acme.Service) :
    (s.newAccount body).Traced Anything (fun q' _ => Checked c body q') q := by
  refine traced_ofExcept_eq.bind fun q₁ j _ ⟨_, hparse⟩ => ?_
  refine traced_ofExcept_eq.bind fun q₂ _ _ _ => ?_
  refine (checkNonce_traced j (allows_anything _ q₂)).bind fun q₃ _ _ hnonce => ?_
  have hchecked : Checked c body q₃ :=
    ⟨j, mapError_ok hparse, hnonce, fun url hurl => nomatch hend.symm.trans hurl⟩
  exact traced_any _ fun q' _ hq => hchecked.extend hq

theorem revokeCert_checked (s : Acme.Service)
    (hend : c.accountEndpoint? = if signedByAccount body then some s.revokeCertURL else none) :
    (s.revokeCert body).Traced Anything (fun q' _ => Checked c body q') q := by
  refine traced_ofExcept_eq.bind fun q₁ j _ ⟨_, hparse⟩ => ?_
  refine traced_ofExcept_eq.bind fun q₂ _ _ ⟨_, hurl⟩ => ?_
  refine (checkNonce_traced j (allows_anything _ q₂)).bind fun q₃ _ _ hnonce => ?_
  refine (revoker_traced j (allows_anything _ q₃)).bind fun q₄ _ hq₄ hsigner => ?_
  have hchecked : Checked c body q₄ := by
    refine ⟨j, mapError_ok hparse, hnonce.extend hq₄, fun url h => ?_⟩
    rw [hend, signedByAccount, mapError_ok hparse] at h
    by_cases hkid : j.keyID = ""
    · simp [hkid] at h
    · obtain rfl : s.revokeCertURL = url := by simpa [hkid] using h
      obtain ⟨a, ha, hverify⟩ := hsigner hkid
      exact ⟨a, checkURL_ok hurl, ha, hverify⟩
  exact traced_any _ fun q' _ hq => hchecked.extend hq

/-- **Every accepted request was checked.** -/
theorem serve_accepted (c : Call) : c.serve.Traced Anything (AcceptedOn c) [] := by
  cases hbody : c.request.body? with
  | none =>
    refine (Prog.traced_any c.serve []).mono (fun _ _ => id) fun q r _ _ body h => ?_
    cases hbody.symm.trans h
  | some body =>
    obtain ⟨acme, request⟩ := c
    cases request with
    | newAccount b =>
      cases hbody
      exact replying_accepted rfl (newAccount_checked rfl acme)
    | getAccount id b =>
      cases hbody
      exact replying_accepted rfl (authenticate_checked rfl _)
    | newOrder b =>
      cases hbody
      exact replying_accepted rfl (authenticate_checked rfl _)
    | getOrder id b =>
      cases hbody
      exact replying_accepted rfl (authenticate_checked rfl _)
    | finalize id b =>
      cases hbody
      exact replying_accepted rfl (authenticate_checked rfl _)
    | getAuthorization id b =>
      cases hbody
      refine replying_accepted rfl ?_
      refine traced_any_bind fun q₁ authz _ => ?_
      refine traced_any_bind fun q₂ order _ => ?_
      exact authenticate_checked rfl _
    | getChallenge id b =>
      cases hbody
      refine replying_accepted rfl ?_
      refine traced_any_bind fun q₁ challenge _ => ?_
      refine traced_any_bind fun q₂ authz _ => ?_
      refine traced_any_bind fun q₃ order _ => ?_
      exact authenticate_checked rfl _
    | getCertificatePEM id b =>
      cases hbody
      exact replying_accepted rfl (authenticate_checked rfl _)
    | revokeCert b =>
      cases hbody
      exact replying_accepted rfl (revokeCert_checked acme rfl)
    | _ => cases hbody

end Endpoints

/-! ## What a call has done when it records a nonce or changes an account -/

/-- Only `newNonce` records a nonce, as the last thing it does with the token it drew, and the one
status an account is ever set to is deactivated. -/
def Tracked (c : Call) (q : Trace sig) : Stmt → Prop
  | .acme (.insertAcmeNonce n expires) => c.request = .newNonce ∧
      ∃ t, q = [⟨.host .randomToken, .ok n⟩, ⟨.host .now, t⟩] ∧ expires = t + Acme.nonceTTL
  | .acme (.setAcmeAccountStatus _ status) => status = .deactivated
  | _ => True

theorem tracked_of_within {c : Call} {ks : List Effect} (h₁ : .insertNonce ∉ ks)
    (h₂ : .setAccountStatus ∉ ks) {q : Trace sig} {s : Stmt} (hs : Within ks s) :
    Tracked c q s := by
  unfold Tracked
  split
  · exact absurd hs h₁
  · exact absurd hs h₂
  · exact trivial

theorem newNonce_tracked {c : Call} (hc : c.request = .newNonce) :
    Acme.newNonce.Traced (Tracked c) (fun _ _ => True) [] := by
  refine (hostCall_saw (host_traced (s := .randomToken) trivial)).bind fun q₁ n _ hq₁ => ?_
  refine (host_traced (s := .now) trivial).bind fun q₂ t _ hq₂ => ?_
  have hmay : Tracked c q₂ (.acme (.insertAcmeNonce n (t + Acme.nonceTTL))) :=
    ⟨hc, t, by rw [hq₂, hq₁]; rfl, rfl⟩
  exact Traced.bind (acme_saw hmay) fun _ _ _ _ => traced_pure trivial

theorem getAccount_tracked [Go.Runtime] {c : Call} (s : Acme.Service) (id : Nat) (body : Body) :
    (s.getAccount id body).Traced (Tracked c) (fun _ _ => True) [] := by
  have hallow (q : Trace sig) :
      Allows [.consumeNonce, .touchAccount, .setAccountContact] (Tracked c) q :=
    fun _ _ _ hs => tracked_of_within (by decide) (by decide) hs
  refine ((hallow []).traced (authenticate_uses (by decide) (by decide) _ _)).bind
    fun q₁ ar _ _ => ?_
  refine traced_failIf_eq.bind fun q₂ _ _ _ => ?_
  refine traced_ite (fun _ => traced_pure trivial) fun _ => ?_
  refine traced_ofExcept_eq.bind fun q₃ req _ _ => ?_
  refine traced_ofExcept_eq.bind fun q₄ _ _ _ => ?_
  refine ((hallow q₄).traced (updateContact_uses (by decide) ar.account req.contact)).bind
    fun q₅ account _ _ => ?_
  have hdeactivate (wanted : Bool) :
      (s.deactivateIf wanted account).Traced (Tracked c) (fun _ _ => True) q₅ := by
    refine traced_ite (fun _ => ?_) fun _ => traced_pure trivial
    have hset : (setAcmeAccountStatus account.id .deactivated).Traced (Tracked c)
        (fun _ _ => True) q₅ :=
      (acme_saw (s := .setAcmeAccountStatus account.id .deactivated)
        (show Tracked c q₅ _ from rfl)).mapResult fun _ _ _ _ _ _ => trivial
    refine Traced.bind (Traced.mapError hset) fun q₆ _ _ _ => ?_
    exact ((hallow q₆).traced (recordAudit_uses s.caSvc _ _ _ _ _)).bind
      fun _ _ _ _ => traced_pure trivial
  exact (hdeactivate _).bind fun _ _ _ _ => traced_pure trivial

/-- **Every call is tracked.** -/
theorem serve_tracked [Go.Runtime] (c : Call) : c.serve.Traced (Tracked c) (fun _ _ => True) [] := by
  by_cases h : Effect.insertNonce ∈ c.request.effects ∨ Effect.setAccountStatus ∈ c.request.effects
  · obtain ⟨acme, request⟩ := c
    cases request with
    | newNonce => exact replying_traced (newNonce_tracked rfl)
    | getAccount id body => exact replying_traced (getAccount_tracked acme id body)
    | _ => simp [Request.effects] at h
  · obtain ⟨h₁, h₂⟩ := not_or.mp h
    exact (serve_uses c).traced.mono (fun q s hs => tracked_of_within h₁ h₂ hs)
      fun _ _ _ => trivial

end Goca
