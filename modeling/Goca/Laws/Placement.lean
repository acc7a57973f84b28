import Goca.Laws.Finalize
import Goca.Laws.Samples

/-!
# Placing an order

`NewOrder` stores its order ready, and only then, in statements of their own, the authorizations and
challenges that make it so. From the first of these statements to the last one the order can be
finalized without them, by whoever asks; and where one of them fails it stays that way, although
the request was refused. So the rule that a ready order is authorized breaks with every order that
is placed (`placement_atomic_iff`): it holds of a run exactly when nothing is placed in it.
-/

set_option autoImplicit false

namespace Goca

open Goca.Store
open Interleave (Act Prog Pool Trace Event own)
open Interleave.Act

/-! ## The rules of a new order -/

/-- The identifier that an authorization is for. -/
def grantedTo (a : AcmeAuthorization) : AcmeIdentifier := ⟨a.identifierType, a.identifierValue⟩

/-- The authorizations of an order, in the order of their creation. -/
def authorizationsOf (w : World) (orderID : Nat) : List AcmeAuthorization :=
  w.acme.authorizations.rows.filter (·.orderID == orderID)

/-- The challenges of an authorization. -/
def challengesOf (w : World) (authzID : Nat) : List AcmeChallenge :=
  w.acme.challenges.rows.filter (·.authorizationID == authzID)

/-- An order has one valid authorization, with one valid challenge, for each of its identifiers. -/
def Authorized (w : World) (o : AcmeOrder) : Prop :=
  ((authorizationsOf w o.id).map grantedTo).Perm o.identifiers ∧
    ∀ a ∈ authorizationsOf w o.id, a.status = .valid ∧
      (challengesOf w a.id).map (·.status) = [.valid]

/-- Every order that is ready is authorized. -/
def ReadyAuthorized (w : World) : Prop :=
  ∀ o ∈ w.acme.orders.rows, o.status = .ready → Authorized w o

/-- The foreign key of the authorizations. -/
def Referred (w : World) : Prop :=
  ∀ a ∈ w.acme.authorizations.rows, (w.acme.orders.get? a.orderID).isSome = true

section Laws

variable [Go.Runtime] (w : World) (calls : List Call) (moves : Pool.Schedule Env)

/-- At move `j` thread `t` places order `o`. -/
def PlacesAt (j t o : Nat) : Prop := ∃ e n x,
  Pool.AskedAt exec (serving w calls) moves j t e (.acme (.insertAcmeOrder n)) x ∧
    (servedUpto w calls moves j).world.acme.orders.get? o = none ∧
    ((servedUpto w calls moves (j + 1)).world.acme.orders.get? o).isSome = true

/-- **Orders are placed atomically**: in no state is an order ready that is not authorized, and none
that was placed by a request which was refused. -/
structure PlacedAtomically : Prop where
  authorized : ∀ i, i ≤ moves.length → ReadyAuthorized (servedUpto w calls moves i).world
  refused : ∀ i j t o p r, i ≤ moves.length → j < i → PlacesAt w calls moves j t o →
    (servedUpto w calls moves i).threads[t]? = some (.pure (.refused p)) →
    (servedUpto w calls moves i).world.acme.orders.get? o = some r → r.status ≠ .ready

end Laws

/-! ## What a call stores of an order -/

/-- An order is stored ready, with an identifier; an authorization, or a challenge, only by a call
that has stored an order. -/
def Places (q : Trace sig) : Stmt → Prop
  | .acme (.insertAcmeOrder n) => n.status = .ready ∧ n.identifiers ≠ []
  | .acme (.insertAcmeAuthorization _) | .acme (.insertAcmeChallenge _) =>
    ∃ n id, Saw q (.acme (.insertAcmeOrder n)) (.ok id)
  | _ => True

/-- A statement with none of these effects may be asked. -/
theorem places_of_within {ks : List Effect} (h₁ : .insertOrder ∉ ks)
    (h₂ : .insertAuthorization ∉ ks) (h₃ : .insertChallenge ∉ ks) {q : Trace sig} {s : Stmt}
    (hs : Within ks s) : Places q s := by
  unfold Places
  split
  · exact absurd hs h₁
  · exact absurd hs h₂
  · exact absurd hs h₃
  · exact trivial

section Serve

variable [Go.Runtime]

/-- A request for some identifiers comes to an order for some. -/
theorem checkIdentifiers_ne_nil {cred : EABCred} {ids out : List AcmeIdentifier} (hids : ids ≠ [])
    (h : Acme.checkIdentifiers cred ids = .ok out) : out ≠ [] := by
  cases ids with
  | nil => exact absurd rfl hids
  | cons id rest =>
    rw [Acme.checkIdentifiers] at h
    cases hone : Acme.checkIdentifier cred id with
    | error p =>
      rw [hone] at h
      cases h
    | ok checked =>
      cases hmore : Acme.checkIdentifiers cred rest with
      | error p =>
        rw [hone, hmore] at h
        cases h
      | ok more =>
        rw [hone, hmore] at h
        cases h
        exact List.cons_ne_nil _ _

theorem newOrder_places (s : Acme.Service) (body : Acme.Body) :
    (s.newOrder body).Traced Places (fun _ _ => True) [] := by
  have hallow (q : Trace sig) : Allows [.consumeNonce, .touchAccount] Places q :=
    fun _ _ _ hs => places_of_within (by decide) (by decide) (by decide) hs
  refine (authenticate_traced body _ (hallow _)).bind fun q₁ ar _ _ => ?_
  refine traced_ofExcept_eq.bind fun q₂ req _ _ => ?_
  refine traced_failIf_eq.bind fun q₃ _ _ ⟨_, hids⟩ => ?_
  refine (activeCred_traced s ar.account (hallow _).reads).bind fun q₄ cred _ _ => ?_
  refine traced_ofExcept_eq.bind fun q₅ idents _ ⟨_, hidents⟩ => ?_
  refine (now_saw (hallow _).now).bind fun q₆ t _ _ => ?_
  refine traced_ofExcept_eq.bind fun q₇ notAfter _ _ => ?_
  have hcreate (n : AcmeOrder) (hready : n.status = .ready) (hsome : n.identifiers ≠ []) :
      (createAcmeOrder n).Traced Places
        (fun q' _ => ∃ n id, Saw q' (.acme (.insertAcmeOrder n)) (.ok id)) q₇ := by
    refine Traced.bind (acme_saw ⟨hready, hsome⟩) fun q' id _ hid => ?_
    have hget : (getAcmeOrder id).Traced Places (fun q'' _ => q' <+: q'') q' :=
      ((hallow q').reads.traced ((acme_uses trivial).mapResult _)).extends.mono fun _ _ h => h.1
    exact hget.mono fun q'' _ hq => ⟨n, id, hid.extend hq⟩
  refine Traced.bind (orInternal_traced (hcreate _ rfl (checkIdentifiers_ne_nil hids hidents)))
    fun q₈ order _ hplaced => ?_
  obtain ⟨n, id, hplaced⟩ := hplaced
  -- from here on the call has stored its order
  refine uses_traced (P := Within [.insertAuthorization, .insertChallenge]) ?_ ?_
  · refine (authorizeIdentifiers_uses (by decide) (by decide) _ _ _).bind fun _ => ?_
    refine (orInternal_uses (orderObjectFor_uses s order)).bind fun obj => ?_
    exact (recordAudit_uses s.caSvc _ _ _ _ _).bind fun _ => uses_pure _
  · intro q' st hq hst
    unfold Places
    split
    · cases hst with
      | tail _ h => cases h with | tail _ h => cases h
    · exact ⟨n, id, hplaced.extend hq⟩
    · exact ⟨n, id, hplaced.extend hq⟩
    · exact trivial

/-- **Every call** stores its orders as said. -/
theorem serve_places (c : Call) : c.serve.Traced Places (fun _ _ => True) [] := by
  obtain ⟨acme, request⟩ := c
  by_cases hplace : ∃ body, request = .newOrder body
  · obtain ⟨body, rfl⟩ := hplace
    exact replying_traced (newOrder_places acme body)
  · have hks : Effect.insertOrder ∉ request.effects ∧
        Effect.insertAuthorization ∉ request.effects ∧
        Effect.insertChallenge ∉ request.effects := by
      cases request with
      | newOrder body => exact absurd ⟨body, rfl⟩ hplace
      | _ => simp [Request.effects]
    obtain ⟨h₁, h₂, h₃⟩ := hks
    exact (serve_uses ⟨acme, request⟩).traced.mono
      (fun q s hs => places_of_within h₁ h₂ h₃ hs) fun _ _ _ => trivial

end Serve

/-! ## What a statement leaves of the rules -/

section Step

variable [Go.Runtime] {e : Env} {w w' : World}

/-- A row whose insertion was answered with a result had its parent, and the insertion took
effect. -/
theorem acme_of_ok {s : AcmeStmt} {x : s.Res} (h : exec e w (.acme s) = some (.ok x, w'))
    {parent : Bool} {done : s.Res × AcmeTables}
    (hs : w.acme.exec e w.ca.certificates s = referred parent w.acme done) :
    x = done.1 ∧ w'.acme = done.2 := by
  obtain ⟨_, hx, rfl⟩ := exec_acme h
  rw [hs] at hx ⊢
  obtain ⟨hans, hw⟩ := Fault.apply_ok hx.symm
  refine (?_ : x = done.1 ∧ (e.fault.apply w.acme (referred parent w.acme done)).2 = done.2)
  rw [hw]
  unfold referred at hans ⊢
  split at hans
  next hparent =>
    rw [if_pos hparent]
    exact ⟨(Except.ok.inj hans).symm, rfl⟩
  next => cases hans

/-- An order that was placed was not there, and is. -/
theorem placed_of_ok {n : AcmeOrder} {id : Nat}
    (h : exec e w (.acme (.insertAcmeOrder n)) = some (.ok id, w')) :
    w.acme.orders.get? id = none ∧ (w'.acme.orders.get? id).isSome = true := by
  obtain ⟨rfl, hw⟩ := acme_of_ok h rfl
  refine ⟨Sql.Table.get?_eq_none_of_lt (Nat.lt_succ_self _), ?_⟩
  rw [hw, Sql.Table.get?_insert, if_pos rfl]
  rfl

/-- An order that is there stays there. -/
theorem order_kept {s : Stmt} {x : s.Ans} (h : exec e w s = some (x, w')) {o : Nat}
    (ho : (w.acme.orders.get? o).isSome = true) : (w'.acme.orders.get? o).isSome = true := by
  have hstep := order_step h o
  generalize w.acme.orders.get? o = r, w'.acme.orders.get? o = r' at hstep ho ⊢
  cases hstep with
  | same => exact ho
  | inserted => rfl
  | failed => rfl
  | claimed => rfl
  | completed => rfl

/-- **The foreign key** of the authorizations is kept. -/
theorem referred_step {s : Stmt} {x : s.Ans} (h : exec e w s = some (x, w')) (hw : Referred w) :
    Referred w' := by
  intro a ha
  rcases authorizations_step h with hsame | ⟨n, rfl, hparent, hins⟩
  · rw [hsame] at ha
    exact order_kept h (hw a ha)
  · rw [hins] at ha
    rcases Sql.Table.mem_insert.mp ha with ha | rfl
    · exact order_kept h (hw a ha)
    · exact order_kept h hparent

omit [Go.Runtime] in
/-- An order has the authorizations and challenges that it had. -/
theorem authorized_of_same (ha : w'.acme.authorizations = w.acme.authorizations)
    (hc : w'.acme.challenges = w.acme.challenges) {o : AcmeOrder} (h : Authorized w o) :
    Authorized w' o := by
  unfold Authorized authorizationsOf challengesOf at *
  rw [ha, hc]
  exact h

/-- Where nothing is placed and nothing granted, the orders that are ready are authorized still. -/
theorem readyAuthorized_step {s : Stmt} {x : s.Ans} (h : exec e w s = some (x, w'))
    (ha : w'.acme.authorizations = w.acme.authorizations)
    (hc : w'.acme.challenges = w.acme.challenges)
    (hplaced : ∀ o, w.acme.orders.get? o = none → w'.acme.orders.get? o = none)
    (hw : ReadyAuthorized w) : ReadyAuthorized w' := by
  intro r' hr' hready
  have hget : w'.acme.orders.get? r'.id = some r' := Sql.Table.get?_of_mem hr'
  have hstep := order_step h r'.id
  rw [hget] at hstep
  generalize hr : w.acme.orders.get? r'.id = r, hout : some r' = out at hstep
  cases hstep with
  | same =>
    rw [← hout] at hr
    exact authorized_of_same ha hc (hw r' (Sql.Table.mem_of_get? hr) hready)
  | inserted n =>
    have hnone := hplaced _ hr
    rw [hget] at hnone
    cases hnone
  | failed problem r =>
    cases hout
    cases hready
  | claimed r =>
    cases hout
    cases hready
  | completed certID r =>
    cases hout
    cases hready

end Step

/-! ## Runs -/

section Runs

variable [Go.Runtime] {w : World} {calls : List Call} {moves : Pool.Schedule Env}

theorem referred_upto (hw : Referred w) {i : Nat} (hi : i ≤ moves.length) :
    Referred (servedUpto w calls moves i).world := by
  induction i with
  | zero => exact hw
  | succ i ih =>
    rcases Pool.upto_asked exec (serving w calls) hi with hsame | ⟨s, x, hasked, _⟩
    · have hsame : servedUpto w calls moves (i + 1) = servedUpto w calls moves i := hsame
      rw [hsame]
      exact ih (by omega)
    · exact referred_step hasked.exec (ih (by omega))

/-- **An order that was just placed** is ready and has no authorization. -/
theorem PlacesAt.unauthorized {j t o : Nat} (hw : Referred w) (h : PlacesAt w calls moves j t o) :
    ¬ ReadyAuthorized (servedUpto w calls moves (j + 1)).world := by
  obtain ⟨e, n, x, hasked, hnone, hsome⟩ := h
  have hj := (List.getElem?_eq_some_iff.mp hasked.move).1
  obtain ⟨c, _, hready, hids⟩ := allowed_upto serve_places hasked.next
  obtain ⟨r, hr⟩ := Option.isSome_iff_exists.mp hsome
  have hrow : r.id = o ∧ r.status = .ready ∧ r.identifiers ≠ [] := by
    have hstep : OrderStep e o (.acme (.insertAcmeOrder n))
        ((servedUpto w calls moves j).world.acme.orders.get? o)
        ((servedUpto w calls moves (j + 1)).world.acme.orders.get? o) := order_step hasked.exec o
    rw [hnone, hr] at hstep
    cases hstep with
    | inserted => exact ⟨rfl, hready, hids⟩
  obtain ⟨rfl, hready, hids⟩ := hrow
  intro hall
  obtain ⟨hperm, _⟩ := hall r (Sql.Table.mem_of_get? hr) hready
  have hsame : (servedUpto w calls moves (j + 1)).world.acme.authorizations =
      (servedUpto w calls moves j).world.acme.authorizations := by
    rcases authorizations_step hasked.exec with hsame | ⟨a, hstmt, _⟩
    · exact hsame
    · cases hstmt
  have hempty : authorizationsOf (servedUpto w calls moves (j + 1)).world r.id = [] := by
    unfold authorizationsOf
    rw [hsame]
    apply List.filter_eq_nil_iff.mpr
    intro a ha horder
    have hparent : ((servedUpto w calls moves j).world.acme.orders.get? a.orderID).isSome = true :=
      referred_upto hw hj.le a ha
    rw [beq_iff_eq.mp horder, hnone] at hparent
    cases hparent
  rw [hempty] at hperm
  exact hids hperm.symm.eq_nil

/-- A call that has stored an order has placed it. -/
theorem placesAt_of_saw {i t id : Nat} {n : AcmeOrder} (hi : i ≤ moves.length)
    (h : Saw (own t (servedUpto w calls moves i).history) (.acme (.insertAcmeOrder n)) (.ok id)) :
    ∃ j < i, PlacesAt w calls moves j t id := by
  obtain ⟨j, e, hj, hasked⟩ := saw_origin hi h
  obtain ⟨hnone, hsome⟩ := placed_of_ok hasked.exec
  exact ⟨j, hj, e, n, _, hasked, hnone, hsome⟩

/-- Nothing is granted where nothing is placed. -/
theorem granted_nothing (h : ∀ j t o, ¬ PlacesAt w calls moves j t o) {i t : Nat} {e : Env}
    {s : Stmt} {x : s.Ans} (hasked : Pool.AskedAt exec (serving w calls) moves i t e s x) :
    (servedUpto w calls moves (i + 1)).world.acme.authorizations =
        (servedUpto w calls moves i).world.acme.authorizations ∧
      (servedUpto w calls moves (i + 1)).world.acme.challenges =
        (servedUpto w calls moves i).world.acme.challenges := by
  have hi := (List.getElem?_eq_some_iff.mp hasked.move).1
  obtain ⟨c, _, hplaces⟩ := allowed_upto serve_places hasked.next
  constructor
  · rcases authorizations_step hasked.exec with hsame | ⟨a, rfl, _⟩
    · exact hsame
    · obtain ⟨n, id, hsaw⟩ := hplaces
      obtain ⟨j, _, hplaced⟩ := placesAt_of_saw hi.le hsaw
      exact absurd hplaced (h j t id)
  · rcases challenges_step hasked.exec with hsame | ⟨a, rfl, _⟩
    · exact hsame
    · obtain ⟨n, id, hsaw⟩ := hplaces
      obtain ⟨j, _, hplaced⟩ := placesAt_of_saw hi.le hsaw
      exact absurd hplaced (h j t id)

/-- A run in which nothing is placed keeps its ready orders authorized. -/
theorem readyAuthorized_upto (hstart : ReadyAuthorized w)
    (h : ∀ j t o, ¬ PlacesAt w calls moves j t o) {i : Nat} (hi : i ≤ moves.length) :
    ReadyAuthorized (servedUpto w calls moves i).world := by
  induction i with
  | zero => exact hstart
  | succ i ih =>
    rcases Pool.upto_asked exec (serving w calls) hi with hsame | ⟨s, x, hasked, _⟩
    · have hsame : servedUpto w calls moves (i + 1) = servedUpto w calls moves i := hsame
      rw [hsame]
      exact ih (by omega)
    · obtain ⟨ha, hc⟩ := granted_nothing h hasked
      refine readyAuthorized_step hasked.exec ha hc ?_ (ih (by omega))
      intro o hnone
      by_contra hsome
      have hstep := order_step hasked.exec o
      have hnone' : ((serving w calls).upto exec moves i).world.acme.orders.get? o = none := hnone
      rw [hnone'] at hstep
      generalize hr : ((serving w calls).upto exec moves (i + 1)).world.acme.orders.get? o = r'
        at hstep
      cases hstep with
      | same => exact hsome hr
      | inserted n hcommits =>
        refine h i _ o ⟨_, n, x, hasked, hnone, ?_⟩
        rw [Option.isSome_iff_ne_none]
        exact hsome

/-- **A placed order is not atomic**: from a database whose ready orders are authorized, a run keeps
them so, and leaves none behind that was refused, exactly when nothing is placed in it. -/
theorem placement_atomic_iff (w : World) (calls : List Call) (moves : Pool.Schedule Env)
    (hfk : Referred w) (hstart : ReadyAuthorized w) :
    PlacedAtomically w calls moves ↔ ∀ j t o, ¬ PlacesAt w calls moves j t o := by
  constructor
  · intro h j t o hplaced
    have hj : j < moves.length := by
      obtain ⟨e, n, x, hasked, _⟩ := hplaced
      exact (List.getElem?_eq_some_iff.mp hasked.move).1
    exact hplaced.unauthorized hfk (h.authorized (j + 1) hj)
  · intro h
    refine ⟨fun i hi => readyAuthorized_upto hstart h hi, ?_⟩
    intro i j t o p r _ _ hplaced
    exact absurd hplaced (h j t o)

end Runs

/-! ## A request that is refused half way -/

open Samples

attribute [local instance] Go.asciiRuntime

/-- A row of the accounts keeps the id it is stored under. -/
theorem key_account (a : AcmeAccount) (id : Nat) : Sql.Keyed.key { a with id } = id := rfl

/-- A database with the authority, the account, and some nonces. -/
def accountInstallation (nonces : List String) : World :=
  { installation root [] with
    acme := { AcmeTables.empty creds with
      accounts := Sql.Table.empty.insert (fun id => { account with id }) (key_account account)
      nonces := nonces.map fun n => ⟨n, 600⟩ } }

/-- The order for one name. -/
def placing : List Call :=
  [⟨replica, .newOrder (accountRequest 1 "n0" replica.newOrderURL { noPayload with
    empty := false
    newOrder := .ok { identifiers := [⟨"dns", "internal"⟩] } })⟩]

/-- The order is stored, and its authorization is not. -/
def halfPlaced : Pool.Schedule Env :=
  inTurn (List.replicate 8 0) ++ [(0, { now := 100, fault := .lost "disk I/O error" })]

theorem referred_accountInstallation (nonces : List String) :
    Referred (accountInstallation nonces) := by
  intro a ha
  cases ha

theorem readyAuthorized_accountInstallation (nonces : List String) :
    ReadyAuthorized (accountInstallation nonces) := by
  intro o ho
  cases ho

/-- An order is atomic in a run exactly when it is not placed, here. -/
theorem placement_atomic_halfPlaced :
    PlacedAtomically (accountInstallation ["n0"]) placing halfPlaced ↔
      ∀ j t o, ¬ PlacesAt (accountInstallation ["n0"]) placing halfPlaced j t o :=
  placement_atomic_iff (accountInstallation ["n0"]) placing halfPlaced
    (referred_accountInstallation _) (readyAuthorized_accountInstallation _)

/-- The statement that has this effect. -/
theorem insertAcmeOrder_of_effect {s : Stmt} (h : Stmt.effect? s = some .insertOrder) :
    ∃ n, s = .acme (.insertAcmeOrder n) := by
  unfold Stmt.effect? at h
  split at h
  all_goals first | exact ⟨_, rfl⟩ | cases h

/-- What a call that has returned was refused with. -/
def refusal? : Prog sig Reply → Option Acme.Problem
  | .pure (.refused p) => some p
  | _ => none

theorem eq_of_refusal? {r : Prog sig Reply} {p : Acme.Problem} (h : refusal? r = some p) :
    r = .pure (.refused p) := by
  unfold refusal? at h
  split at h
  · cases h
    rfl
  · cases h

/-- **A refused order stays ready**: the request is answered with an error, and what it placed can
be finalized. -/
theorem refused_order_ready :
    ¬ PlacedAtomically (accountInstallation ["n0"]) placing halfPlaced := by
  intro h
  have hnext : ((servedUpto (accountInstallation ["n0"]) placing halfPlaced 6).next? 0).bind
      Stmt.effect? = some .insertOrder := by decide +kernel
  obtain ⟨s, hs, heffect⟩ := Option.bind_eq_some_iff.mp hnext
  obtain ⟨n, rfl⟩ := insertAcmeOrder_of_effect heffect
  have hmove : halfPlaced[6]? = some (0, { now := 100, pick := 2 }) := by decide
  obtain ⟨x, hasked⟩ := asked_acme hmove (by decide) hs
  have hnone : (servedUpto (accountInstallation ["n0"]) placing halfPlaced
      6).world.acme.orders.get? 1 = none := by decide +kernel
  have hsome : ((servedUpto (accountInstallation ["n0"]) placing halfPlaced
      7).world.acme.orders.get? 1).isSome = true := by decide +kernel
  have hrefused : (((servedUpto (accountInstallation ["n0"]) placing halfPlaced
      9).threads[0]?).bind refusal?).isSome = true := by decide +kernel
  obtain ⟨p, hp⟩ := Option.isSome_iff_exists.mp hrefused
  obtain ⟨r, hr, hrefusal⟩ := Option.bind_eq_some_iff.mp hp
  rw [eq_of_refusal? hrefusal] at hr
  have hready : ((servedUpto (accountInstallation ["n0"]) placing halfPlaced
      9).world.acme.orders.get? 1).map (·.status) = some .ready := by decide +kernel
  obtain ⟨o, ho, hstatus⟩ := Option.map_eq_some_iff.mp hready
  have hplaces : PlacesAt (accountInstallation ["n0"]) placing halfPlaced 6 0 1 :=
    ⟨_, n, x, hasked, hnone, hsome⟩
  exact h.refused 9 6 0 1 p o (by decide) (by decide) hplaces hr ho hstatus

end Goca
