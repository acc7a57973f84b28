import Goca.Laws.Authentication
import Goca.Laws.Samples

/-!
# Every accepted request is authentic

The run-wide half of authentication. A token is drawn once, so a nonce is recorded once; it is in
the table at most once, and the delete that redeems it leaves none, so no second request redeems
it, on whatever replica. A deactivated account stays deactivated, so a request that was accepted
read its account before.
-/

set_option autoImplicit false

namespace Goca

open Goca.Store
open Goca.Acme (Body ParsedJWS)
open Interleave (Pool Trace Event own)

/-! ## The ledger of nonces -/

/-- The names of the stored nonces. -/
def World.nonceNames (w : World) : List String := w.acme.nonces.map (·.nonce)

/-- What the history says about the nonces in the table, and about those that are gone. -/
structure NonceLedger (h : List (Event sig)) (w : World) : Prop where
  /-- A token that was drawn counts as given out. -/
  drawn : ∀ t n, ⟨t, .host .randomToken, .ok n⟩ ∈ h → n ∈ w.tokens
  /-- One thread drew it. -/
  owner : ∀ t t' n, ⟨t, .host .randomToken, .ok n⟩ ∈ h → ⟨t', .host .randomToken, .ok n⟩ ∈ h →
    t = t'
  /-- A nonce is a token that its thread drew. -/
  minted : ∀ t n expires x, ⟨t, .acme (.insertAcmeNonce n expires), x⟩ ∈ h →
    ⟨t, .host .randomToken, .ok n⟩ ∈ h
  /-- A nonce in the table was recorded. -/
  recorded : ∀ r ∈ w.acme.nonces, ∃ t x, ⟨t, .acme (.insertAcmeNonce r.nonce r.expiresAt), x⟩ ∈ h
  distinct : (World.nonceNames w).Nodup
  /-- A nonce that was redeemed was recorded, and is gone. -/
  spent : ∀ t n d, ⟨t, .acme (.consumeAcmeNonce n d), .ok (1 : Nat)⟩ ∈ h →
    n ∉ World.nonceNames w ∧ ∃ t' expires x, ⟨t', .acme (.insertAcmeNonce n expires), x⟩ ∈ h
  /-- One thread redeemed it. -/
  single : ∀ t t' n d d', ⟨t, .acme (.consumeAcmeNonce n d), .ok (1 : Nat)⟩ ∈ h →
    ⟨t', .acme (.consumeAcmeNonce n d'), .ok (1 : Nat)⟩ ∈ h → t = t'

/-- A new database holds no nonce. -/
theorem nonceLedger_init (creds : Sql.Table EABCred) : NonceLedger [] (World.empty creds) where
  drawn := by simp
  owner := by simp
  minted := by simp
  recorded := by simp [World.empty, AcmeTables.empty]
  distinct := by simp [World.nonceNames, World.empty, AcmeTables.empty]
  spent := by simp
  single := by simp

section Step

variable [Go.Runtime] {h : List (Event sig)} {w w' : World} {e : Env} {c : Call} {t : Nat}
  {s : Stmt} {x : s.Ans}

omit [Go.Runtime] in
/-- A nonce that is being recorded is recorded for the first time. -/
theorem NonceLedger.fresh (hl : NonceLedger h w) {n : String} {expires : Go.Time}
    (htracked : Tracked c (own t h) (.acme (.insertAcmeNonce n expires))) (t' : Nat)
    (expires' : Go.Time) (x' : Except Go.Error Unit) :
    ⟨t', .acme (.insertAcmeNonce n expires'), x'⟩ ∉ h := by
  obtain ⟨_, now, hown, _⟩ := htracked
  intro hmem
  have hdrawn : (⟨t, .host .randomToken, .ok n⟩ : Event sig) ∈ h := by
    rw [← Interleave.mem_own, hown]
    exact List.mem_cons_self
  obtain rfl := hl.owner t t' n hdrawn (hl.minted _ _ _ _ hmem)
  -- The recording would be among the two statements that the thread has asked.
  rw [← Interleave.mem_own, hown] at hmem
  simp at hmem

/-- What is left in the table was there before, or is the nonce being recorded. -/
theorem mem_nonces_step (hx : exec e w s = some (x, w')) {r : AcmeNonce}
    (hr : r ∈ w'.acme.nonces) :
    r ∈ w.acme.nonces ∨ s = .acme (.insertAcmeNonce r.nonce r.expiresAt) := by
  have hstep := nonce_step hx
  generalize w.acme.nonces = ns, w'.acme.nonces = ns' at hstep hr
  cases hstep with
  | same => exact .inl hr
  | recorded n expires _ hn =>
    rcases List.mem_append.mp hr with hr | hr
    · exact .inl hr
    · obtain rfl := List.mem_singleton.mp hr
      exact .inr rfl
  | redeemed n d => exact .inl (List.mem_filter.mp hr).1
  | purged d => exact .inl (List.mem_filter.mp hr).1

theorem nodup_nonceNames_step (hx : exec e w s = some (x, w')) (hd : (World.nonceNames w).Nodup) :
    (World.nonceNames w').Nodup := by
  have hstep := nonce_step hx
  unfold World.nonceNames at *
  generalize w.acme.nonces = ns, w'.acme.nonces = ns' at hstep hd
  cases hstep with
  | same => exact hd
  | recorded n expires _ hn =>
    rw [List.map_append, List.nodup_append]
    refine ⟨hd, List.nodup_singleton _, ?_⟩
    rintro a ha b hb rfl
    obtain rfl : a = n := List.mem_singleton.mp hb
    exact hn ha
  | redeemed n d => exact hd.sublist (List.filter_sublist.map _)
  | purged d => exact hd.sublist (List.filter_sublist.map _)

/-- The delete that redeems a nonce leaves none of its name. -/
theorem not_mem_of_redeemed {n : String} {d : Go.Time} (hd : (World.nonceNames w).Nodup)
    (hx : exec e w (.acme (.consumeAcmeNonce n d)) = some (.ok (1 : Nat), w')) :
    n ∉ World.nonceNames w' := by
  obtain ⟨expires, hmem, hlt, hw'⟩ := live_of_redeemed hx
  intro hn
  obtain ⟨r, hr, rfl⟩ := List.mem_map.mp hn
  rw [hw'] at hr
  obtain ⟨hr, hlive⟩ := List.mem_filter.mp hr
  have hsame : r = ⟨r.nonce, expires⟩ := List.inj_on_of_nodup_map hd hr hmem rfl
  rw [hsame] at hlive
  simp [AcmeNonce.live, hlt] at hlive

/-- **The step of the ledger.** -/
theorem NonceLedger.step (hl : NonceLedger h w) (hx : exec e w s = some (x, w'))
    (htracked : Tracked c (own t h) s) : NonceLedger (h ++ [⟨t, s, x⟩]) w' where
  drawn := by
    intro u n hmem
    rcases List.mem_append.mp hmem with hmem | hmem
    · exact tokens_step hx (hl.drawn u n hmem)
    · cases List.mem_singleton.mp hmem
      obtain ⟨_, hn, rfl⟩ := exec_randomToken hx
      cases Fault.answer_ok hn.symm
      exact List.mem_cons_self
  owner := by
    -- A token drawn now is not one of those drawn before.
    have hnew (u : Nat) (n : String) (hu : ⟨u, .host .randomToken, .ok n⟩ ∈ h)
        (heq : (⟨t, s, x⟩ : Event sig) = ⟨t, .host .randomToken, .ok n⟩) : False := by
      cases heq
      obtain ⟨hn, hans, _⟩ := exec_randomToken hx
      cases Fault.answer_ok hans.symm
      exact hn (hl.drawn u _ hu)
    intro u u' n hm hm'
    rcases List.mem_append.mp hm with hu | hu <;> rcases List.mem_append.mp hm' with hu' | hu'
    · exact hl.owner u u' n hu hu'
    · cases List.mem_singleton.mp hu'
      exact (hnew u n hu rfl).elim
    · cases List.mem_singleton.mp hu
      exact (hnew u' n hu' rfl).elim
    · cases List.mem_singleton.mp hu
      cases List.mem_singleton.mp hu'
      rfl
  minted := by
    intro u n expires y hmem
    rcases List.mem_append.mp hmem with hmem | hmem
    · exact List.mem_append_left _ (hl.minted u n expires y hmem)
    · cases List.mem_singleton.mp hmem
      obtain ⟨_, now, hown, _⟩ := htracked
      refine List.mem_append_left _ ?_
      rw [← Interleave.mem_own, hown]
      exact List.mem_cons_self
  recorded := by
    intro r hr
    obtain hr | rfl := mem_nonces_step hx hr
    · obtain ⟨u, y, hu⟩ := hl.recorded r hr
      exact ⟨u, y, List.mem_append_left _ hu⟩
    · exact ⟨t, x, List.mem_append_right _ (List.mem_singleton_self _)⟩
  distinct := nodup_nonceNames_step hx hl.distinct
  spent := by
    intro u n d hmem
    rcases List.mem_append.mp hmem with hmem | hmem
    · obtain ⟨hgone, u', expires, y, hu'⟩ := hl.spent u n d hmem
      refine ⟨fun hn => ?_, u', expires, y, List.mem_append_left _ hu'⟩
      obtain ⟨r, hr, rfl⟩ := List.mem_map.mp hn
      obtain hr | rfl := mem_nonces_step hx hr
      · exact hgone (List.mem_map_of_mem hr)
      · exact hl.fresh htracked u' expires y hu'
    · cases List.mem_singleton.mp hmem
      obtain ⟨expires, hlive, _, _⟩ := live_of_redeemed hx
      obtain ⟨u', y, hu'⟩ := hl.recorded _ hlive
      exact ⟨not_mem_of_redeemed hl.distinct hx, u', expires, y, List.mem_append_left _ hu'⟩
  single := by
    -- A nonce redeemed now is still in the table, and those redeemed before are not.
    have hnew (u : Nat) (n : String) (d d' : Go.Time)
        (hu : ⟨u, .acme (.consumeAcmeNonce n d), .ok (1 : Nat)⟩ ∈ h)
        (heq : (⟨t, s, x⟩ : Event sig) = ⟨t, .acme (.consumeAcmeNonce n d'), .ok (1 : Nat)⟩) :
        False := by
      cases heq
      obtain ⟨expires, hlive, _, _⟩ := live_of_redeemed hx
      exact (hl.spent u n d hu).1 (List.mem_map_of_mem hlive)
    intro u u' n d d' hm hm'
    rcases List.mem_append.mp hm with hu | hu <;> rcases List.mem_append.mp hm' with hu' | hu'
    · exact hl.single u u' n d d' hu hu'
    · cases List.mem_singleton.mp hu'
      exact (hnew u n d d' hu rfl).elim
    · cases List.mem_singleton.mp hu
      exact (hnew u' n d' d hu' rfl).elim
    · cases List.mem_singleton.mp hu
      cases List.mem_singleton.mp hu'
      rfl

end Step

/-! ## Deactivated accounts -/

/-- Account `a` is stored as deactivated. -/
def Deactivated (a : Nat) (w : World) : Prop :=
  (w.acme.accounts.get? a).any (·.status == .deactivated) = true

/-- **A deactivated account stays deactivated**: no call sets another status. -/
theorem deactivated_step [Go.Runtime] {e : Env} {w w' : World} {c : Call} {q : Trace sig}
    {s : Stmt} {x : s.Ans} (hx : exec e w s = some (x, w')) (htracked : Tracked c q s) {a : Nat}
    (h : Deactivated a w) : Deactivated a w' := by
  unfold Deactivated at *
  have hstep := account_step hx a
  generalize w.acme.accounts.get? a = r, w'.acme.accounts.get? a = r' at hstep h ⊢
  cases hstep with
  | same => exact h
  | inserted n hc => cases h
  | status st r hc =>
    obtain rfl : st = .deactivated := htracked
    rfl
  | contact contact r hc => exact h
  | touched r hc => exact h

/-! ## Runs -/

section Run

variable [Go.Runtime] (w : World) (calls : List Call) (moves : Pool.Schedule Env)

/-- The request that thread `t` serves has this body and was accepted. -/
structure Accepted (t : Nat) (c : Call) (body : Body) : Prop where
  call : calls[t]? = some c
  body : c.request.body? = some body
  success : ((served w calls moves).threads[t]?.bind Interleave.Prog.result?).any
    (·.succeeded) = true

/-- A call of `newNonce` recorded the nonce before move `m`. -/
def IssuedBefore (m : Nat) (n : String) (expires : Go.Time) : Prop :=
  ∃ i t c e x, i < m ∧ calls[t]? = some c ∧ c.request = .newNonce ∧
    Pool.AskedAt exec (serving w calls) moves i t e (.acme (.insertAcmeNonce n expires)) x

/-- Thread `t` redeemed the nonce, which had been issued and had not expired at the time that the
thread read from the clock for it. -/
def NonceRedeemed (t : Nat) (n : String) : Prop :=
  ∃ m e k e' expires, k < m ∧
    Pool.AskedAt exec (serving w calls) moves k t e' (.host .now) e'.now ∧
    Pool.AskedAt exec (serving w calls) moves m t e (.acme (.consumeAcmeNonce n e'.now))
      (.ok (1 : Nat)) ∧
    IssuedBefore w calls moves m n expires ∧ e'.now < expires

/-- Thread `t` found account `a` valid under the kid, and at no move up to then was the account
deactivated. -/
def AccountFound (t : Nat) (kid : String) (a : AcmeAccount) : Prop :=
  Acme.accountIDOf kid = some a.id ∧ a.status = .valid ∧
    ∃ i e, Pool.AskedAt exec (serving w calls) moves i t e (.acme (.selectAcmeAccount a.id))
        (.ok (some a)) ∧
      (servedUpto w calls moves i).world.acme.accounts.get? a.id = some a ∧
      ∀ k, k ≤ moves.length → Deactivated a.id (servedUpto w calls moves k).world → i < k

/-- What an accepted request carried: a nonce that was issued, had not expired and that no other
accepted request carried, and, where an account signs the request, the url of the endpoint and a
signature under the key of an account that was valid. -/
def Authentic (t : Nat) (c : Call) (body : Body) : Prop :=
  ∃ j, Acme.parseJWS body = .ok j ∧ NonceRedeemed w calls moves t j.nonce ∧
    (∀ t' c' body' j', Accepted w calls moves t' c' body' → Acme.parseJWS body' = .ok j' →
      j'.nonce = j.nonce → t' = t) ∧
    ∀ url, c.accountEndpoint? = some url → j.url = url ∧
      ∃ a, AccountFound w calls moves t j.keyID a ∧ j.verify a.jwk = .ok ()

variable {w calls moves}

/-- What an accepted request has checked. -/
theorem Accepted.checked {t : Nat} {c : Call} {body : Body}
    (h : Accepted w calls moves t c body) :
    Checked c body (own t (served w calls moves).history) := by
  have hsuccess := h.success
  cases hres : (served w calls moves).threads[t]?.bind Interleave.Prog.result? with
  | none => simp [hres] at hsuccess
  | some r =>
    obtain ⟨p, hp, hpr⟩ := Option.bind_eq_some_iff.mp hres
    cases p with
    | ask s k => cases hpr
    | pure r' =>
      cases hpr
      rw [hres] at hsuccess
      exact returned serve_accepted h.call hp hsuccess body h.body

/-- A deactivation outlives every schedule. -/
theorem deactivated_upto {a i j : Nat} (hij : i ≤ j) (hj : j ≤ moves.length)
    (h : Deactivated a (servedUpto w calls moves i).world) :
    Deactivated a (servedUpto w calls moves j).world := by
  induction hij with
  | refl => exact h
  | @step j _ ih =>
    have hlt : j < moves.length := hj
    obtain hs | ⟨s, x, hasked, _⟩ := Pool.upto_asked exec (serving w calls) hlt
    · have hsame : servedUpto w calls moves (j + 1) = servedUpto w calls moves j := hs
      rw [hsame]
      exact ih (by omega)
    · obtain ⟨c, _, htracked⟩ := allowed_upto serve_tracked hasked.next
      exact deactivated_step hasked.exec htracked (ih (by omega))

/-- An account that was resolved was valid, and had not been deactivated, when it was read. -/
theorem accountFound_of_resolved {t : Nat} {kid : String} {a : AcmeAccount}
    (h : Resolved kid a (own t (served w calls moves).history)) :
    AccountFound w calls moves t kid a := by
  obtain ⟨⟨id, hid, hread⟩, hvalid⟩ := h
  rw [served, ← Pool.upto_length] at hread
  obtain ⟨i, e, hi, hasked⟩ := saw_origin (Nat.le_refl _) hread
  have hrow : (servedUpto w calls moves i).world.acme.accounts.get? id = some a :=
    get?_of_selectAcmeAccount hasked.exec
  obtain rfl : a.id = id := Sql.Table.key_of_get? hrow
  refine ⟨hid, hvalid, i, e, hasked, hrow, fun k hk hdead => ?_⟩
  by_contra hik
  have hdead' := deactivated_upto (by omega) (Nat.le_of_lt hi) hdead
  rw [Deactivated, hrow, Option.any_some, hvalid] at hdead'
  cases hdead'

end Run

section Authentic

variable [Go.Runtime] {creds : Sql.Table EABCred} {calls : List Call} {moves : Pool.Schedule Env}

/-- **The ledger of a run** from a new database. -/
theorem nonceLedger_served (creds : Sql.Table EABCred) (calls : List Call)
    (moves : Pool.Schedule Env) :
    NonceLedger (served (World.empty creds) calls moves).history
      (served (World.empty creds) calls moves).world :=
  served_invariant serve_tracked (nonceLedger_init creds)
    (fun _ _ _ _ _ _ _ _ _ htracked hx hl => hl.step hx htracked) moves

theorem nonceRedeemed_of_redeemed {t : Nat} {n : String}
    (h : Redeemed n (own t (served (World.empty creds) calls moves).history)) :
    NonceRedeemed (World.empty creds) calls moves t n := by
  obtain ⟨d, q, hclock, hpre⟩ := h
  obtain ⟨m, e, hm, hasked, rfl⟩ := own_asked hpre
  obtain ⟨k, e', hk, hnow⟩ := saw_origin (Nat.le_of_lt hm) hclock
  obtain ⟨_, hhost⟩ := exec_host hnow.exec
  obtain rfl : e'.now = d := congrArg Prod.fst (Option.some.inj hhost)
  obtain ⟨expires, hlive, hlt, _⟩ := live_of_redeemed hasked.exec
  obtain ⟨t', x, hrecorded⟩ :=
    (nonceLedger_served creds calls (moves.take m)).recorded _ hlive
  obtain ⟨i, e'', hi, hrec⟩ := Pool.history_origin (Nat.le_of_lt hm) rfl hrecorded
  obtain ⟨c, hc, hnew, _⟩ := allowed_upto serve_tracked hrec.next
  exact ⟨m, e, k, e', expires, hk, hnow, hasked, ⟨i, t', c, e'', x, hi, hc, hnew, hrec⟩, hlt⟩

/-- **Request authentication**: in every run from a new database, of any calls on any replicas, an
accepted request carried a nonce that was issued, had not expired and that no other accepted request
carried; and one that an account signs carried the url of its endpoint and a signature under the key
of an account that was valid and had not been deactivated. -/
theorem accepted_authentic {t : Nat} {c : Call} {body : Body}
    (h : Accepted (World.empty creds) calls moves t c body) :
    Authentic (World.empty creds) calls moves t c body := by
  obtain ⟨j, hparse, hnonce, hauth⟩ := h.checked
  refine ⟨j, hparse, nonceRedeemed_of_redeemed hnonce, ?_, fun url hurl => ?_⟩
  · intro t' c' body' j' h' hparse' hsame
    obtain ⟨j'', hparse'', hnonce', _⟩ := h'.checked
    obtain rfl : j' = j'' := Except.ok.inj (hparse'.symm.trans hparse'')
    rw [hsame] at hnonce'
    obtain ⟨d, q, _, hd⟩ := hnonce
    obtain ⟨d', q', _, hd'⟩ := hnonce'
    have hmem := Interleave.mem_own.mp (hd.subset (List.mem_append_right _ List.mem_cons_self))
    have hmem' := Interleave.mem_own.mp (hd'.subset (List.mem_append_right _ List.mem_cons_self))
    exact (nonceLedger_served creds calls moves).single _ _ _ _ _ hmem' hmem
  · obtain ⟨a, ha⟩ := hauth url hurl
    exact ⟨ha.endpoint, a, accountFound_of_resolved ha.account, ha.verified⟩

end Authentic

/-! ## An accepted lookup -/

open Samples

/-- Two nonces, a registration, and a lookup of the account. -/
def registerAndLookup : List Call :=
  [⟨replica, .newNonce⟩, ⟨replica, .newNonce⟩, ⟨replica, .newAccount (registration "n0")⟩,
    ⟨replica, .getAccount 1 (accountRequest 1 "n1" (replica.accountURL 1) noPayload)⟩]

/-- The requests one after the other. -/
def inOrder : Pool.Schedule Env :=
  drawing 0 "n0" ++ drawing 1 "n1" ++ inTurn (List.replicate 9 2 ++ List.replicate 4 3)

/-- The lookup is accepted, so it was authentic. -/
theorem lookup_authentic : @Authentic Go.asciiRuntime (World.empty creds) registerAndLookup inOrder 3
    ⟨replica, .getAccount 1 (accountRequest 1 "n1" (replica.accountURL 1) noPayload)⟩
    (accountRequest 1 "n1" (replica.accountURL 1) noPayload) := by
  let _ := Go.asciiRuntime
  have haccepted : Accepted (World.empty creds) registerAndLookup inOrder 3 _ _ :=
    ⟨rfl, rfl, by decide +kernel⟩
  exact accepted_authentic haccepted

end Goca
