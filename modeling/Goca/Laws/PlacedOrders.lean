import Goca.Laws.Placement

/-!
# Orders that are placed

What a `NewOrder` leaves behind that comes to its end: its order, and for each identifier a valid
authorization with a valid challenge, each stored in a statement of its own (`newOrder_stores`). So
the rule that placing an order breaks holds again wherever no order is half placed: from a database
whose ready orders are authorized, in every state of every run in which each call that has placed
an order has answered with it, the ready orders are authorized (`readyAuthorized_of_placedOut`).

A table is read off the history: it holds what it held at the start, and behind that what the calls
stored, in the order of their statements. What belongs to one order was stored by one call.
-/

set_option autoImplicit false

namespace Goca

open Goca.Store
open Interleave (Act Prog Pool Trace Event own)
open Interleave.Act
open Sql (Table)

/-! ## What a trace has stored -/

/-- What became of a statement that stores an order, an authorization or a challenge: the row as it
stands in its table, or nothing that the call knows of. -/
inductive Entry
  | order (o : AcmeOrder)
  | authorization (a : AcmeAuthorization)
  | challenge (c : AcmeChallenge)
  | unplaced
  | ungranted

def entry? : (s : Stmt) × s.Ans → Option Entry
  | ⟨.acme (.insertAcmeOrder n), .ok id⟩ =>
    some (.order { n with id, certificateID := none, error := none })
  | ⟨.acme (.insertAcmeAuthorization n), .ok id⟩ => some (.authorization { n with id })
  | ⟨.acme (.insertAcmeChallenge n), .ok id⟩ => some (.challenge { n with id })
  | ⟨.acme (.insertAcmeOrder _), .error _⟩ => some .unplaced
  | ⟨.acme (.insertAcmeAuthorization _), .error _⟩ => some .ungranted
  | ⟨.acme (.insertAcmeChallenge _), .error _⟩ => some .ungranted
  | _ => none

/-- What was stored, oldest first. -/
def stored (q : Trace sig) : List Entry := q.filterMap entry?

def Entry.authorization? : Entry → Option AcmeAuthorization
  | .authorization a => some a
  | _ => none

def Entry.challenge? : Entry → Option AcmeChallenge
  | .challenge c => some c
  | _ => none

/-- The authorizations among what was stored. -/
def granted (l : List Entry) : List AcmeAuthorization := l.filterMap Entry.authorization?

/-- The challenges among what was stored. -/
def challenged (l : List Entry) : List AcmeChallenge := l.filterMap Entry.challenge?

/-- An authorization and its challenge, both valid, for an identifier of an order. -/
structure Grants (orderID : Nat) (id : AcmeIdentifier) (p : AcmeAuthorization × AcmeChallenge) :
    Prop where
  order : p.1.orderID = orderID
  identifier : grantedTo p.1 = id
  valid : p.1.status = .valid
  challenge : p.2.authorizationID = p.1.id
  challengeValid : p.2.status = .valid

/-- Authorizations as they are stored, each with its challenge behind it. -/
def entriesOf (ps : List (AcmeAuthorization × AcmeChallenge)) : List Entry :=
  ps.flatMap fun p => [.authorization p.1, .challenge p.2]

/-- An order, and all that is granted for it. -/
def PlacedWhole (l : List Entry) : Prop :=
  ∃ o ps, l = .order o :: entriesOf ps ∧ List.Forall₂ (Grants o.id) o.identifiers ps

/-- Rows are read under their numbers. -/
structure ReadsBack (q : Trace sig) : Prop where
  order : ∀ id o, Saw q (.acme (.selectAcmeOrder id)) (.ok (some o)) → o.id = id
  authorization : ∀ id a, Saw q (.acme (.selectAcmeAuthorization id)) (.ok (some a)) → a.id = id

theorem ReadsBack.of_prefix {q q' : Trace sig} (h : ReadsBack q') (hq : q <+: q') : ReadsBack q :=
  ⟨fun id o ho => h.order id o (ho.extend hq),
    fun id a ha => h.authorization id a (ha.extend hq)⟩

theorem stored_append (q q' : Trace sig) : stored (q ++ q') = stored q ++ stored q' :=
  List.filterMap_append

theorem stored_snoc {q : Trace sig} {y : (s : Stmt) × s.Ans} {r : Entry} (h : entry? y = some r) :
    stored (q ++ [y]) = stored q ++ [r] := by
  rw [stored_append, stored, stored, List.filterMap_cons_some h, List.filterMap_nil]

theorem stored_snoc_none {q : Trace sig} {y : (s : Stmt) × s.Ans} (h : entry? y = none) :
    stored (q ++ [y]) = stored q := by
  rw [stored_append, stored, stored, List.filterMap_cons_none h, List.filterMap_nil,
    List.append_nil]

/-- None of the effects is one of these. -/
abbrev StoresNothing (ks : List Effect) : Prop :=
  .insertOrder ∉ ks ∧ .insertAuthorization ∉ ks ∧ .insertChallenge ∉ ks

theorem entry?_of_within {ks : List Effect} (hks : StoresNothing ks) {s : Stmt} (hs : Within ks s)
    (x : s.Ans) : entry? ⟨s, x⟩ = none := by
  obtain ⟨h₁, h₂, h₃⟩ := hks
  unfold entry?
  split
  · next heq => cases heq; exact absurd hs h₁
  · next heq => cases heq; exact absurd hs h₂
  · next heq => cases heq; exact absurd hs h₃
  · next heq => cases heq; exact absurd hs h₁
  · next heq => cases heq; exact absurd hs h₂
  · next heq => cases heq; exact absurd hs h₃
  · rfl

section Stores

variable {ε α β : Type} {q : Trace sig}

/-- Such a statement leaves what was stored as it is. -/
theorem stored_step {ks : List Effect} (hks : StoresNothing ks) {l : List Entry} (q : Trace sig)
    (s : Stmt) (x : s.Ans) (hq : stored q = l) (hs : Within ks s) :
    stored (q ++ [⟨s, x⟩]) = l :=
  (stored_snoc_none (entry?_of_within hks hs x)).trans hq

/-- The rule of sequence behind an action that stores nothing. -/
theorem stored_bind (ks : List Effect) (hks : StoresNothing ks) {x : Handler ε α}
    (hx : x.Uses (Within ks)) {f : α → Handler ε β} {post : Trace sig → β → Prop}
    (hf : ∀ q' a, q <+: q' → stored q' = stored q →
      (f a).Traced (fun _ _ => True) post q') : (x >>= f).Traced (fun _ _ => True) post q :=
  (hx.keeps (J := fun q' => stored q' = stored q) (fun _ _ _ _ => trivial)
    (fun q' s x hq' hs => stored_step hks q' s x hq' hs) rfl).bind hf

/-- What is read back behind it changes nothing either. -/
theorem readBack_stores {x : Handler ε α} (hx : x.Uses (Within [])) {post : Trace sig → α → Prop}
    (hsaw : x.Traced (fun _ _ => True) post q) :
    x.Traced (fun _ _ => True) (fun q' a => post q' a ∧ stored q' = stored q) q :=
  hsaw.and_keeps (J := fun q' => stored q' = stored q) hx
    (fun q' s x hq' hs => stored_step (by decide) q' s x hq' hs) rfl

theorem createAcmeOrder_stores (n : AcmeOrder) :
    (createAcmeOrder n).Traced (fun _ _ => True) (fun q' o => ∃ id r,
      r = { n with id, certificateID := none, error := none } ∧
        stored q' = stored q ++ [.order r] ∧ (ReadsBack q' → o.id = r.id)) q := by
  refine (acme_traced trivial).bind fun q₁ id _ hq₁ => ?_
  have hget : (getAcmeOrder id).Traced (fun _ _ => True)
      (fun q' o => Saw q' (.acme (.selectAcmeOrder id)) (.ok (some o))) q₁ :=
    row_traced (acme_saw (s := .selectAcmeOrder id) trivial)
  refine (readBack_stores ((acme_uses trivial).mapResult _) hget).mono ?_
  rintro q' o ⟨hsaw, hkept⟩
  refine ⟨id, _, rfl, hkept.trans ?_, fun h => h.order id o hsaw⟩
  rw [hq₁]
  exact stored_snoc rfl

theorem createAcmeAuthorization_stores (n : AcmeAuthorization) :
    (createAcmeAuthorization n).Traced (fun _ _ => True) (fun q' a => ∃ id r,
      r = { n with id } ∧ stored q' = stored q ++ [.authorization r] ∧
        (ReadsBack q' → a.id = r.id)) q := by
  refine (acme_traced trivial).bind fun q₁ id _ hq₁ => ?_
  have hget : (getAcmeAuthorization id).Traced (fun _ _ => True)
      (fun q' a => Saw q' (.acme (.selectAcmeAuthorization id)) (.ok (some a))) q₁ :=
    row_traced (acme_saw (s := .selectAcmeAuthorization id) trivial)
  refine (readBack_stores ((acme_uses trivial).mapResult _) hget).mono ?_
  rintro q' a ⟨hsaw, hkept⟩
  refine ⟨id, _, rfl, hkept.trans ?_, fun h => h.authorization id a hsaw⟩
  rw [hq₁]
  exact stored_snoc rfl

theorem createAcmeChallenge_stores (n : AcmeChallenge) :
    (createAcmeChallenge n).Traced (fun _ _ => True) (fun q' _ => ∃ id r,
      r = { n with id } ∧ stored q' = stored q ++ [.challenge r]) q := by
  refine (acme_traced trivial).bind fun q₁ id _ hq₁ => ?_
  have hget : (getAcmeChallenge id).Traced (fun _ _ => True) (fun _ _ => True) q₁ :=
    traced_any _ fun _ _ _ => trivial
  refine (readBack_stores ((acme_uses trivial).mapResult _) hget).mono ?_
  rintro q' c ⟨_, hkept⟩
  refine ⟨id, _, rfl, hkept.trans ?_⟩
  rw [hq₁]
  exact stored_snoc rfl

/-! ## The loop -/

/-- **One turn of the loop** stores a valid authorization with a valid challenge. -/
theorem authorizeIdentifier_stores (orderID : Nat) (t : Go.Time) (id : AcmeIdentifier) :
    (Acme.authorizeIdentifier orderID t id).Traced (fun _ _ => True) (fun q' _ => ReadsBack q' →
      ∃ p, stored q' = stored q ++ entriesOf [p] ∧ Grants orderID id p) q := by
  refine Traced.bind (orInternal_traced (createAcmeAuthorization_stores _))
    fun q₁ authz _ ⟨_, a, ha, h₁, hback⟩ => ?_
  refine stored_bind [] (by decide) (orInternal_uses randomToken_uses) fun q₂ token hq₂ h₂ => ?_
  refine Traced.bind (orInternal_traced (createAcmeChallenge_stores _))
    fun q₃ _ hq₃ ⟨_, c, hc, h₃⟩ => traced_pure fun hreads => ?_
  have hid : authz.id = a.id := hback (hreads.of_prefix (hq₂.trans hq₃))
  refine ⟨(a, c), ?_, ?_⟩
  · rw [h₃, h₂, h₁, List.append_assoc]
    rfl
  · have hchallenge : c.authorizationID = a.id := by rw [hc, hid]
    have hvalid : c.status = .valid := by rw [hc]
    rw [ha] at hchallenge ⊢
    exact ⟨rfl, rfl, rfl, hchallenge, hvalid⟩

/-- **The loop** stores, for each identifier in turn, a valid authorization with a valid
challenge. -/
theorem authorizeIdentifiers_stores (orderID : Nat) (t : Go.Time) (ids : List AcmeIdentifier) :
    (Acme.authorizeIdentifiers orderID t ids).Traced (fun _ _ => True) (fun q' _ => ReadsBack q' →
      ∃ ps, stored q' = stored q ++ entriesOf ps ∧ List.Forall₂ (Grants orderID) ids ps) q := by
  induction ids generalizing q with
  | nil => exact traced_pure fun _ => ⟨[], (List.append_nil _).symm, .nil⟩
  | cons id rest ih =>
    refine Traced.bind (authorizeIdentifier_stores orderID t id) fun q₁ _ _ hone => ?_
    refine (ih (q := q₁)).extends.mono fun q₂ _ ⟨hq, hmore⟩ hreads => ?_
    obtain ⟨p, h₁, hp⟩ := hone (hreads.of_prefix hq)
    obtain ⟨ps, h₂, hps⟩ := hmore hreads
    refine ⟨p :: ps, ?_, .cons hp hps⟩
    rw [h₂, h₁, List.append_assoc]
    rfl

end Stores

section NewOrder

variable [Go.Runtime]

/-- **A `NewOrder` that succeeds** stores its order, and all that is granted for it. -/
theorem newOrder_stores (s : Acme.Service) (body : Acme.Body) :
    (s.newOrder body).Traced (fun _ _ => True) (fun q _ => ReadsBack q → PlacedWhole (stored q))
      [] := by
  refine stored_bind [.consumeNonce, .touchAccount] (by decide)
    (authenticate_uses (by decide) (by decide) _ _) fun q₁ ar _ h₁ => ?_
  refine stored_bind [] (by decide) (uses_ofExcept _) fun q₂ req _ h₂ => ?_
  refine stored_bind [] (by decide) (uses_failIf _ _) fun q₃ _ _ h₃ => ?_
  refine stored_bind [] (by decide) (activeCred_uses s _) fun q₄ cred _ h₄ => ?_
  refine stored_bind [] (by decide) (uses_ofExcept _) fun q₅ idents _ h₅ => ?_
  refine stored_bind [] (by decide) now_uses fun q₆ t _ h₆ => ?_
  refine stored_bind [] (by decide) (uses_ofExcept _) fun q₇ notAfter _ h₇ => ?_
  refine Traced.bind (orInternal_traced (createAcmeOrder_stores _))
    fun q₈ order _ ⟨_, o, ho, h₈, hback⟩ => ?_
  refine Traced.bind (authorizeIdentifiers_stores order.id t idents) fun q₉ _ hq₉ hloop => ?_
  refine stored_bind [] (by decide) (orInternal_uses (orderObjectFor_uses s order))
    fun q₁₀ obj hq₁₀ h₁₀ => ?_
  refine stored_bind [] (by decide) (recordAudit_uses s.caSvc _ _ _ _ _)
    fun q₁₁ _ hq₁₁ h₁₁ => traced_pure fun hreads => ?_
  have hreads₉ := hreads.of_prefix (hq₁₀.trans hq₁₁)
  obtain ⟨ps, h₉, hps⟩ := hloop hreads₉
  rw [hback (hreads₉.of_prefix hq₉)] at hps
  refine ⟨o, ps, ?_, ?_⟩
  · rw [h₁₁, h₁₀, h₉, h₈, h₇, h₆, h₅, h₄, h₃, h₂, h₁]
    rfl
  · have hids : o.identifiers = idents := by rw [ho]
    rw [hids]
    exact hps

/-- **Every call** that answers with a new order has placed it whole. -/
theorem serve_stores (c : Call) : c.serve.Traced (fun _ _ => True)
    (fun q r => ∀ body o obj, c.request = .newOrder body → r = .ordered o obj → ReadsBack q →
      PlacedWhole (stored q)) [] := by
  obtain ⟨acme, request⟩ := c
  by_cases hplace : ∃ body, request = .newOrder body
  · obtain ⟨body, rfl⟩ := hplace
    refine Prog.Traced.bind (newOrder_stores acme body) fun q r _ hr => ?_
    cases r with
    | ok out => exact Prog.traced_pure.mpr fun _ _ _ _ _ hreads => hr _ rfl hreads
    | error e =>
      refine Prog.traced_pure.mpr ?_
      intro _ o obj _ h
      cases h
  · refine (Prog.traced_any _ []).mono (fun _ _ => id) ?_
    intro _ _ _ body _ _ hbody
    exact absurd ⟨body, hbody⟩ hplace

end NewOrder

/-! ## The tables -/

theorem granted_append (q q' : Trace sig) :
    granted (stored (q ++ q')) = granted (stored q) ++ granted (stored q') := by
  rw [stored_append, granted, List.filterMap_append]
  rfl

theorem challenged_append (q q' : Trace sig) :
    challenged (stored (q ++ q')) = challenged (stored q) ++ challenged (stored q') := by
  rw [stored_append, challenged, List.filterMap_append]
  rfl

theorem Entry.authorization?_eq_some {r : Entry} {a : AcmeAuthorization} :
    r.authorization? = some a ↔ r = .authorization a := by
  cases r <;> simp [Entry.authorization?]

theorem Entry.challenge?_eq_some {r : Entry} {c : AcmeChallenge} :
    r.challenge? = some c ↔ r = .challenge c := by
  cases r <;> simp [Entry.challenge?]

/-- What is among the stored, one statement has stored. -/
theorem mem_filterMap_stored {β : Type} {get : Entry → Option β} {b : β} {r : Entry}
    (hget : ∀ r', get r' = some b ↔ r' = r) {q : Trace sig} :
    b ∈ (stored q).filterMap get ↔ ∃ y ∈ q, entry? y = some r := by
  simp only [stored, List.mem_filterMap, hget]
  constructor
  · rintro ⟨_, ⟨y, hy, hentry⟩, rfl⟩
    exact ⟨y, hy, hentry⟩
  · rintro ⟨y, hy, hentry⟩
    exact ⟨r, ⟨y, hy, hentry⟩, rfl⟩

theorem mem_granted {q : Trace sig} {a : AcmeAuthorization} :
    a ∈ granted (stored q) ↔ ∃ y ∈ q, entry? y = some (.authorization a) :=
  mem_filterMap_stored fun _ => Entry.authorization?_eq_some

theorem mem_challenged {q : Trace sig} {c : AcmeChallenge} :
    c ∈ challenged (stored q) ↔ ∃ y ∈ q, entry? y = some (.challenge c) :=
  mem_filterMap_stored fun _ => Entry.challenge?_eq_some

theorem of_entry?_authorization {y : (s : Stmt) × s.Ans} {a : AcmeAuthorization}
    (h : entry? y = some (.authorization a)) :
    ∃ n id, y = ⟨.acme (.insertAcmeAuthorization n), .ok id⟩ := by
  unfold entry? at h
  split at h
  all_goals first | exact ⟨_, _, rfl⟩ | cases h

theorem of_entry?_challenge {y : (s : Stmt) × s.Ans} {c : AcmeChallenge}
    (h : entry? y = some (.challenge c)) :
    ∃ n id, y = ⟨.acme (.insertAcmeChallenge n), .ok id⟩ := by
  unfold entry? at h
  split at h
  all_goals first | exact ⟨_, _, rfl⟩ | cases h

theorem of_entry?_order {y : (s : Stmt) × s.Ans} {o : AcmeOrder}
    (h : entry? y = some (.order o)) : ∃ n id, y = ⟨.acme (.insertAcmeOrder n), .ok id⟩ ∧
      o = { n with id, certificateID := none, error := none } := by
  unfold entry? at h
  split at h
  all_goals first | exact ⟨_, _, rfl, (Entry.order.inj (Option.some.inj h)).symm⟩ | cases h

/-- What is stored for one row by one thread alone stands on that thread's own trace. -/
theorem filter_stored_own {β : Type} (get : Entry → Option β) (p : β → Bool) {t : Nat}
    {h : List (Event sig)}
    (hown : ∀ t', ∀ b ∈ (stored (own t' h)).filterMap get, p b = true → t' = t) :
    ((stored (Interleave.steps h)).filterMap get).filter p =
      ((stored (own t h)).filterMap get).filter p := by
  unfold stored
  rw [List.filterMap_filterMap, List.filterMap_filterMap]
  refine Interleave.filter_filterMap_own (S := sig) _ _ fun e he b hb => hown e.thread b ?_
  obtain ⟨r, hr, hget⟩ := Option.bind_eq_some_iff.mp hb
  have hstored : r ∈ stored (own e.thread h) :=
    List.mem_filterMap.mpr ⟨_, Interleave.mem_own.mpr he, hr⟩
  exact List.mem_filterMap.mpr ⟨r, hstored, hget⟩

theorem granted_whole (o : AcmeOrder) (ps : List (AcmeAuthorization × AcmeChallenge)) :
    granted (.order o :: entriesOf ps) = ps.map Prod.fst := by
  induction ps with
  | nil => rfl
  | cons p ps ih => exact congrArg (p.1 :: ·) ih

theorem challenged_whole (o : AcmeOrder) (ps : List (AcmeAuthorization × AcmeChallenge)) :
    challenged (.order o :: entriesOf ps) = ps.map Prod.snd := by
  induction ps with
  | nil => rfl
  | cons p ps ih => exact congrArg (p.2 :: ·) ih

theorem grants_of_mem {orderID : Nat} {ids : List AcmeIdentifier}
    {ps : List (AcmeAuthorization × AcmeChallenge)} (h : List.Forall₂ (Grants orderID) ids ps)
    {p : AcmeAuthorization × AcmeChallenge} (hp : p ∈ ps) : ∃ id, Grants orderID id p := by
  induction h with
  | nil => cases hp
  | cons hone _ ih =>
    rcases List.mem_cons.mp hp with rfl | hp
    · exact ⟨_, hone⟩
    · exact ih hp

theorem grantedTo_map {orderID : Nat} {ids : List AcmeIdentifier}
    {ps : List (AcmeAuthorization × AcmeChallenge)} (h : List.Forall₂ (Grants orderID) ids ps) :
    (ps.map Prod.fst).map grantedTo = ids := by
  induction h with
  | nil => rfl
  | cons hone _ ih =>
    rw [List.map_cons, List.map_cons, ih, hone.identifier]

/-- Among challenges of different authorizations there is one for each. -/
theorem filter_challenge {ps : List (AcmeAuthorization × AcmeChallenge)}
    (hdistinct : (ps.map (·.1.id)).Nodup) (h : ∀ p ∈ ps, p.2.authorizationID = p.1.id)
    {p : AcmeAuthorization × AcmeChallenge} (hp : p ∈ ps) :
    (ps.map Prod.snd).filter (·.authorizationID == p.1.id) = [p.2] := by
  induction ps with
  | nil => cases hp
  | cons p' ps ih =>
    rw [List.map_cons, List.nodup_cons] at hdistinct
    have hhead := h p' List.mem_cons_self
    have htail := fun p hp => h p (List.mem_cons_of_mem _ hp)
    rw [List.map_cons, List.filter_cons, hhead]
    rcases List.mem_cons.mp hp with rfl | hp
    · rw [beq_self_eq_true, if_pos rfl]
      refine congrArg (p.2 :: ·) (List.filter_eq_nil_iff.mpr fun c hc hid => ?_)
      obtain ⟨p', hp', rfl⟩ := List.mem_map.mp hc
      rw [htail p' hp', beq_iff_eq] at hid
      exact hdistinct.1 (hid ▸ List.mem_map_of_mem hp')
    · have hne : p'.1.id ≠ p.1.id := fun heq =>
        hdistinct.1 (heq ▸ List.mem_map_of_mem (f := (·.1.id)) hp)
      rw [if_neg (by simpa using hne)]
      exact ih hdistinct.2 htail hp

/-- The tables hold what they held at the start, and behind that what was stored since. -/
structure GrantsRecorded (w w' : World) (q : Trace sig) : Prop where
  authorizations :
    w'.acme.authorizations.rows = w.acme.authorizations.rows ++ granted (stored q)
  challenges : w'.acme.challenges.rows = w.acme.challenges.rows ++ challenged (stored q)

/-- The foreign key of the challenges. -/
def ChallengesReferred (w : World) : Prop :=
  ∀ c ∈ w.acme.challenges.rows, (w.acme.authorizations.get? c.authorizationID).isSome = true

section Step

variable [Go.Runtime] {e : Env} {w w' : World}

/-- A row whose insertion was answered with a number stands last in its table. -/
theorem authorization_of_ok {n : AcmeAuthorization} {id : Nat}
    (h : exec e w (.acme (.insertAcmeAuthorization n)) = some (.ok id, w')) :
    w'.acme.authorizations.rows = w.acme.authorizations.rows ++ [{ n with id }] := by
  obtain ⟨rfl, hw⟩ := acme_of_ok h rfl
  rw [hw]
  rfl

theorem challenge_of_ok {n : AcmeChallenge} {id : Nat}
    (h : exec e w (.acme (.insertAcmeChallenge n)) = some (.ok id, w')) :
    w'.acme.challenges.rows = w.acme.challenges.rows ++ [{ n with id }] := by
  obtain ⟨rfl, hw⟩ := acme_of_ok h rfl
  rw [hw]
  rfl

/-- An order is stored under the number that is answered. -/
theorem order_of_ok {n : AcmeOrder} {id o : Nat}
    (h : exec e w (.acme (.insertAcmeOrder n)) = some (.ok id, w')) (ho : o ≠ id) :
    w'.acme.orders.get? o = w.acme.orders.get? o := by
  obtain ⟨rfl, hw⟩ := acme_of_ok h rfl
  rw [hw, Table.get?_insert, if_neg ho]

/-- **One statement**, unless it fails to store a grant, adds to the tables what it stored. -/
theorem grantsRecorded_step {w₀ : World} {q : Trace sig} {s : Stmt} {x : s.Ans}
    (h : exec e w s = some (x, w')) (hok : entry? ⟨s, x⟩ ≠ some .ungranted)
    (hw : GrantsRecorded w₀ w q) : GrantsRecorded w₀ w' (q ++ [⟨s, x⟩]) := by
  constructor
  · rw [granted_append, ← List.append_assoc, ← hw.authorizations]
    rcases authorizations_step h with hsame | ⟨n, rfl, _⟩
    · have hnone : granted (stored [⟨s, x⟩]) = [] := by
        refine List.eq_nil_iff_forall_not_mem.mpr fun a ha => ?_
        obtain ⟨y, hy, hentry⟩ := mem_granted.mp ha
        rw [List.mem_singleton.mp hy] at hentry
        obtain ⟨n, id, heq⟩ := of_entry?_authorization hentry
        cases heq
        have hrows := authorization_of_ok h
        rw [hsame] at hrows
        simp at hrows
      rw [hsame, hnone, List.append_nil]
    · cases x with
      | error e => exact absurd rfl hok
      | ok id => exact authorization_of_ok h
  · rw [challenged_append, ← List.append_assoc, ← hw.challenges]
    rcases challenges_step h with hsame | ⟨n, rfl, _⟩
    · have hnone : challenged (stored [⟨s, x⟩]) = [] := by
        refine List.eq_nil_iff_forall_not_mem.mpr fun c hc => ?_
        obtain ⟨y, hy, hentry⟩ := mem_challenged.mp hc
        rw [List.mem_singleton.mp hy] at hentry
        obtain ⟨n, id, heq⟩ := of_entry?_challenge hentry
        cases heq
        have hrows := challenge_of_ok h
        rw [hsame] at hrows
        simp at hrows
      rw [hsame, hnone, List.append_nil]
    · cases x with
      | error e => exact absurd rfl hok
      | ok id => exact challenge_of_ok h

end Step

/-- Only a `NewOrder` stores an order. -/
theorem newOrder_of_within {request : Request} {n : AcmeOrder}
    (h : Within request.effects (.acme (.insertAcmeOrder n))) :
    ∃ body, request = .newOrder body := by
  have hmem : Effect.insertOrder ∈ request.effects := h
  cases request with
  | newOrder body => exact ⟨body, rfl⟩
  | _ => simp [Request.effects] at hmem

/-! ## Runs -/

section Runs

variable [Go.Runtime] {w : World} {calls : List Call} {moves : Pool.Schedule Env}

/-- The tables of a run in which no grant fails to be stored. -/
theorem grantsRecorded_upto {i : Nat} (hi : i ≤ moves.length)
    (hok : ∀ y ∈ Interleave.steps (servedUpto w calls moves i).history,
      entry? y ≠ some .ungranted) :
    GrantsRecorded w (servedUpto w calls moves i).world
      (Interleave.steps (servedUpto w calls moves i).history) := by
  induction i with
  | zero => exact ⟨(List.append_nil _).symm, (List.append_nil _).symm⟩
  | succ i ih =>
    rcases Pool.upto_asked exec (serving w calls) hi with hsame | ⟨s, x, hasked, hhist⟩
    · have hsame : servedUpto w calls moves (i + 1) = servedUpto w calls moves i := hsame
      rw [hsame] at hok ⊢
      exact ih (by omega) hok
    · have hsteps : Interleave.steps (servedUpto w calls moves (i + 1)).history =
          Interleave.steps (servedUpto w calls moves i).history ++ [⟨s, x⟩] := by
        show Interleave.steps ((serving w calls).upto exec moves (i + 1)).history = _
        rw [hhist, Interleave.steps_append]
        rfl
      rw [hsteps] at hok ⊢
      refine grantsRecorded_step hasked.exec (hok _ (List.mem_append_right _ (by simp))) ?_
      exact ih (by omega) fun y hy => hok y (List.mem_append_left _ hy)

/-- Orders stay. -/
theorem order_kept_upto {i j o : Nat} (hij : i ≤ j) (hj : j ≤ moves.length)
    (h : ((servedUpto w calls moves i).world.acme.orders.get? o).isSome = true) :
    ((servedUpto w calls moves j).world.acme.orders.get? o).isSome = true := by
  let R (w w' : World) : Prop :=
    (w.acme.orders.get? o).isSome = true → (w'.acme.orders.get? o).isSome = true
  have hkept : R (servedUpto w calls moves i).world (servedUpto w calls moves j).world :=
    Pool.upto_related (R := R) (fun _ => id) (fun _ _ _ h h' => h' ∘ h)
      (fun _ _ _ _ _ hx => order_kept hx) (serving w calls) hij hj
  exact hkept h

/-- An order is placed once. -/
theorem placed_once {j j' t t' o : Nat} (h : PlacesAt w calls moves j t o)
    (h' : PlacesAt w calls moves j' t' o) : t = t' := by
  obtain ⟨e, n, x, hasked, hnone, hsome⟩ := h
  obtain ⟨e', n', x', hasked', hnone', hsome'⟩ := h'
  have hj := (List.getElem?_eq_some_iff.mp hasked.move).1
  have hj' := (List.getElem?_eq_some_iff.mp hasked'.move).1
  rcases Nat.lt_trichotomy j j' with hlt | rfl | hlt
  · have hkept := order_kept_upto hlt hj'.le hsome
    rw [hnone'] at hkept
    cases hkept
  · exact congrArg Prod.fst (Option.some.inj (hasked.move.symm.trans hasked'.move))
  · have hkept := order_kept_upto hlt hj.le hsome'
    rw [hnone] at hkept
    cases hkept

/-- What an order was placed under is what the statement answered. -/
theorem id_of_placed {j t o id : Nat} {e : Env} {n : AcmeOrder}
    (hasked : Pool.AskedAt exec (serving w calls) moves j t e (.acme (.insertAcmeOrder n)) (.ok id))
    (h : PlacesAt w calls moves j t o) : o = id := by
  obtain ⟨_, _, _, _, hnone, hsome⟩ := h
  by_contra hne
  have hsame : (servedUpto w calls moves (j + 1)).world.acme.orders.get? o =
      (servedUpto w calls moves j).world.acme.orders.get? o := order_of_ok hasked.exec hne
  rw [hsame, hnone] at hsome
  cases hsome

/-- An order of the start is not placed. -/
theorem not_placed_of_start {j t o : Nat} (h : (w.acme.orders.get? o).isSome = true) :
    ¬ PlacesAt w calls moves j t o := by
  rintro ⟨e, n, x, hasked, hnone, _⟩
  have hj := (List.getElem?_eq_some_iff.mp hasked.move).1
  have hkept : ((servedUpto w calls moves j).world.acme.orders.get? o).isSome = true :=
    order_kept_upto (Nat.zero_le j) hj.le h
  rw [hnone] at hkept
  cases hkept

variable (w calls moves) in
/-- At move `j` thread `t` stores the order, as it is. -/
def StoresAt (j t : Nat) (r : AcmeOrder) : Prop := ∃ e n x,
  Pool.AskedAt exec (serving w calls) moves j t e (.acme (.insertAcmeOrder n)) x ∧
    PlacesAt w calls moves j t r.id ∧
      r = { n with id := r.id, certificateID := none, error := none }

/-- **Where a ready order comes from**: it is a row of the start, or a call stored it. -/
theorem ready_origin {i : Nat} (hi : i ≤ moves.length) {r : AcmeOrder}
    (hr : (servedUpto w calls moves i).world.acme.orders.get? r.id = some r)
    (hready : r.status = .ready) : w.acme.orders.get? r.id = some r ∨
      ∃ j t, j < i ∧ StoresAt w calls moves j t r := by
  induction i with
  | zero => exact .inl hr
  | succ i ih =>
    have hearlier (h : (servedUpto w calls moves i).world.acme.orders.get? r.id = some r) :
        w.acme.orders.get? r.id = some r ∨ ∃ j t, j < i + 1 ∧ StoresAt w calls moves j t r :=
      (ih (by omega) h).imp_right fun ⟨j, t, hj, hstores⟩ => ⟨j, t, by omega, hstores⟩
    rcases Pool.upto_asked exec (serving w calls) hi with hsame | ⟨s, x, hasked, _⟩
    · have hsame : servedUpto w calls moves (i + 1) = servedUpto w calls moves i := hsame
      rw [hsame] at hr
      exact hearlier hr
    · have hstep : OrderStep moves[i].2 r.id s
          ((servedUpto w calls moves i).world.acme.orders.get? r.id)
          ((servedUpto w calls moves (i + 1)).world.acme.orders.get? r.id) :=
        order_step hasked.exec r.id
      rw [hr] at hstep
      generalize hbefore : (servedUpto w calls moves i).world.acme.orders.get? r.id = before,
        hout : some r = after at hstep
      cases hstep with
      | same =>
        rw [← hout]
        exact hearlier (hbefore.trans hout.symm)
      | inserted n =>
        refine .inr ⟨i, _, Nat.lt_succ_self i, _, n, x, hasked, ⟨_, n, x, hasked, hbefore, ?_⟩,
          Option.some.inj hout⟩
        rw [hr]
        rfl
      | failed problem r' =>
        cases hout
        cases hready
      | claimed r' =>
        cases hout
        cases hready
      | completed certID r' =>
        cases hout
        cases hready

theorem readsBack_upto {i : Nat} (hi : i ≤ moves.length) (t : Nat) :
    ReadsBack (own t (servedUpto w calls moves i).history) := by
  constructor
  · intro id o h
    obtain ⟨_, _, _, hasked⟩ := saw_origin hi h
    exact Table.key_of_get? (get?_of_selectAcmeOrder hasked.exec)
  · intro id a h
    obtain ⟨_, _, _, hasked⟩ := saw_origin hi h
    exact Table.key_of_get? (get?_of_selectAcmeAuthorization hasked.exec)

variable (w calls moves) in
/-- No order is half placed: every call that has placed one has answered with it. -/
def PlacedOut (i : Nat) : Prop :=
  ∀ j t o, j < i → PlacesAt w calls moves j t o →
    ∃ r obj, (servedUpto w calls moves i).threads[t]? = some (.pure (.ordered r obj))

section PlacedOut

variable {i : Nat} (hi : i ≤ moves.length) (hout : PlacedOut w calls moves i)

include hi hout

theorem whole_of_placed {j t o : Nat} (hj : j < i) (h : PlacesAt w calls moves j t o) :
    PlacedWhole (stored (own t (servedUpto w calls moves i).history)) := by
  obtain ⟨row, obj, hthread⟩ := hout j t o hj h
  obtain ⟨e, n, x, hasked, _⟩ := h
  have hnext : (servedUpto w calls moves j).next? t = some (.acme (.insertAcmeOrder n)) :=
    hasked.next
  obtain ⟨c, hc, hwithin⟩ := allowed_upto (fun c => (serve_uses c).traced) hnext
  obtain ⟨body, hbody⟩ := newOrder_of_within hwithin
  exact returned serve_stores hc hthread body row obj hbody rfl (readsBack_upto hi t)

/-- A thread that has stored anything has placed an order whole. -/
theorem whole_of_entry {t : Nat} {y : (s : Stmt) × s.Ans} {r : Entry}
    (hy : y ∈ own t (servedUpto w calls moves i).history) (hr : entry? y = some r)
    (hne : r ≠ .unplaced) : ∃ o ps, (∃ j < i, PlacesAt w calls moves j t o.id) ∧
      stored (own t (servedUpto w calls moves i).history) = .order o :: entriesOf ps ∧
      List.Forall₂ (Grants o.id) o.identifiers ps := by
  obtain ⟨s, x⟩ := y
  obtain ⟨k, e, hk, hasked⟩ := saw_origin hi hy
  have hki : k ≤ moves.length := by omega
  have hnext : (servedUpto w calls moves k).next? t = some s := hasked.next
  obtain ⟨c, _, hmay⟩ := allowed_upto serve_places hnext
  -- A grant follows an order that the thread has stored before.
  have hbefore (h : ∃ n id, Saw (own t (servedUpto w calls moves k).history)
      (.acme (.insertAcmeOrder n)) (.ok id)) : ∃ j id, j < i ∧ PlacesAt w calls moves j t id := by
    obtain ⟨n, id, hsaw⟩ := h
    obtain ⟨j, hj, hplaces⟩ := placesAt_of_saw hki hsaw
    exact ⟨j, id, by omega, hplaces⟩
  have hplaced : ∃ j id, j < i ∧ PlacesAt w calls moves j t id := by
    unfold entry? at hr
    split at hr
    · next heq =>
      cases heq
      obtain ⟨hnone, hsome⟩ := placed_of_ok hasked.exec
      exact ⟨k, _, hk, e, _, _, hasked, hnone, hsome⟩
    · next heq => cases heq; exact hbefore hmay
    · next heq => cases heq; exact hbefore hmay
    · cases hr
      exact absurd rfl hne
    · next heq => cases heq; exact hbefore hmay
    · next heq => cases heq; exact hbefore hmay
    · cases hr
  obtain ⟨j, id, hj, hplaces⟩ := hplaced
  obtain ⟨o, ps, hstored, hps⟩ := whole_of_placed hi hout hj hplaces
  refine ⟨o, ps, ?_, hstored, hps⟩
  -- The order on its trace is the one that the thread has placed.
  have ho : Entry.order o ∈ stored (own t (servedUpto w calls moves i).history) := by
    rw [hstored]
    exact List.mem_cons_self
  obtain ⟨z, hz, hentry⟩ := List.mem_filterMap.mp ho
  obtain ⟨n, id, rfl, rfl⟩ := of_entry?_order hentry
  exact placesAt_of_saw hi hz

/-- Nothing that was to be granted failed to be stored. -/
theorem granted_all {y : (s : Stmt) × s.Ans}
    (hy : y ∈ Interleave.steps (servedUpto w calls moves i).history) :
    entry? y ≠ some .ungranted := by
  intro hentry
  obtain ⟨t, hown⟩ := Interleave.mem_steps.mp hy
  obtain ⟨o, ps, _, hstored, _⟩ := whole_of_entry hi hout hown hentry nofun
  have hmem : Entry.ungranted ∈ stored (own t (servedUpto w calls moves i).history) :=
    List.mem_filterMap.mpr ⟨y, hown, hentry⟩
  rw [hstored] at hmem
  simp [entriesOf] at hmem

/-- What a thread grants is for an order that it has placed. -/
theorem placed_of_granted {t : Nat} {a : AcmeAuthorization}
    (ha : a ∈ granted (stored (own t (servedUpto w calls moves i).history))) :
    ∃ j < i, PlacesAt w calls moves j t a.orderID := by
  obtain ⟨y, hy, hentry⟩ := mem_granted.mp ha
  obtain ⟨o, ps, hplaces, hstored, hps⟩ := whole_of_entry hi hout hy hentry nofun
  rw [hstored, granted_whole] at ha
  obtain ⟨p, hp, rfl⟩ := List.mem_map.mp ha
  obtain ⟨id, hgrants⟩ := grants_of_mem hps hp
  rw [hgrants.order]
  exact hplaces

/-- A challenge is for an authorization that its thread has granted. -/
theorem granted_of_challenged {t : Nat} {c : AcmeChallenge}
    (hc : c ∈ challenged (stored (own t (servedUpto w calls moves i).history))) :
    ∃ a ∈ granted (stored (own t (servedUpto w calls moves i).history)),
      c.authorizationID = a.id := by
  obtain ⟨y, hy, hentry⟩ := mem_challenged.mp hc
  obtain ⟨o, ps, _, hstored, hps⟩ := whole_of_entry hi hout hy hentry nofun
  rw [hstored, challenged_whole] at hc
  obtain ⟨p, hp, rfl⟩ := List.mem_map.mp hc
  obtain ⟨id, hgrants⟩ := grants_of_mem hps hp
  rw [hstored, granted_whole]
  exact ⟨p.1, List.mem_map_of_mem hp, hgrants.challenge⟩

theorem grantsRecorded_of_placedOut : GrantsRecorded w (servedUpto w calls moves i).world
    (Interleave.steps (servedUpto w calls moves i).history) :=
  grantsRecorded_upto hi fun _ hy => granted_all hi hout hy

/-- An authorization that was granted is in the table. -/
theorem mem_of_granted {t : Nat} {a : AcmeAuthorization}
    (ha : a ∈ granted (stored (own t (servedUpto w calls moves i).history))) :
    a ∈ granted (stored (Interleave.steps (servedUpto w calls moves i).history)) ∧
      a ∈ (servedUpto w calls moves i).world.acme.authorizations.rows := by
  obtain ⟨y, hy, hentry⟩ := mem_granted.mp ha
  have hall : a ∈ granted (stored (Interleave.steps (servedUpto w calls moves i).history)) :=
    mem_granted.mpr ⟨y, Interleave.mem_steps.mpr ⟨t, hy⟩, hentry⟩
  refine ⟨hall, ?_⟩
  rw [(grantsRecorded_of_placedOut hi hout).authorizations]
  exact List.mem_append_right _ hall

/-- What is granted for an order, the thread that placed it has granted. -/
theorem granted_for {j t o : Nat} (h : PlacesAt w calls moves j t o) :
    (granted (stored (Interleave.steps (servedUpto w calls moves i).history))).filter
        (·.orderID == o) =
      (granted (stored (own t (servedUpto w calls moves i).history))).filter (·.orderID == o) := by
  refine filter_stored_own _ _ fun t' a ha horder => ?_
  obtain ⟨j', _, hplaces⟩ := placed_of_granted hi hout ha
  rw [beq_iff_eq.mp horder] at hplaces
  exact placed_once hplaces h

/-- The challenges of an authorization were stored by the thread that granted it. -/
theorem challenged_for {t : Nat} {a : AcmeAuthorization}
    (h : a ∈ granted (stored (own t (servedUpto w calls moves i).history))) :
    (challenged (stored (Interleave.steps (servedUpto w calls moves i).history))).filter
        (·.authorizationID == a.id) =
      (challenged (stored (own t (servedUpto w calls moves i).history))).filter
        (·.authorizationID == a.id) := by
  refine filter_stored_own _ _ fun t' c hc hauthz => ?_
  obtain ⟨a', ha', hid⟩ := granted_of_challenged hi hout hc
  have hsame : a' = a := by
    refine Table.eq_of_key_eq (mem_of_granted hi hout ha').2 (mem_of_granted hi hout h).2 ?_
    exact hid.symm.trans (beq_iff_eq.mp hauthz)
  obtain ⟨_, _, hplaces⟩ := placed_of_granted hi hout h
  obtain ⟨_, _, hplaces'⟩ := placed_of_granted hi hout ha'
  rw [hsame] at hplaces'
  exact placed_once hplaces' hplaces

/-- An order of the start has the authorizations that it had, and they their challenges. -/
theorem authorized_of_start {o : AcmeOrder} (ho : w.acme.orders.get? o.id = some o)
    (h : Authorized w o) : Authorized (servedUpto w calls moves i).world o := by
  have hrec := grantsRecorded_of_placedOut hi hout
  have hauthz : authorizationsOf (servedUpto w calls moves i).world o.id =
      authorizationsOf w o.id := by
    unfold authorizationsOf
    rw [hrec.authorizations, List.filter_append]
    refine List.append_right_eq_self.mpr (List.filter_eq_nil_iff.mpr fun a ha horder => ?_)
    obtain ⟨y, hy, hentry⟩ := mem_granted.mp ha
    obtain ⟨t, hown⟩ := Interleave.mem_steps.mp hy
    obtain ⟨_, _, hplaces⟩ := placed_of_granted hi hout (mem_granted.mpr ⟨y, hown, hentry⟩)
    rw [beq_iff_eq.mp horder] at hplaces
    exact not_placed_of_start (by rw [ho]; rfl) hplaces
  have hchal : ∀ a ∈ authorizationsOf w o.id,
      challengesOf (servedUpto w calls moves i).world a.id = challengesOf w a.id := by
    intro a ha
    unfold challengesOf
    rw [hrec.challenges, List.filter_append]
    refine List.append_right_eq_self.mpr (List.filter_eq_nil_iff.mpr fun c hc hid => ?_)
    obtain ⟨y, hy, hentry⟩ := mem_challenged.mp hc
    obtain ⟨t, hown⟩ := Interleave.mem_steps.mp hy
    obtain ⟨a', ha', hid'⟩ :=
      granted_of_challenged hi hout (mem_challenged.mpr ⟨y, hown, hentry⟩)
    have hdistinct := (servedUpto w calls moves i).world.acme.authorizations.distinct
    rw [hrec.authorizations, List.map_append, List.nodup_append] at hdistinct
    refine hdistinct.2.2 a.id ?_ a'.id ?_ ?_
    · exact List.mem_map_of_mem (List.mem_filter.mp ha).1
    · exact List.mem_map_of_mem (mem_of_granted hi hout ha').1
    · exact (beq_iff_eq.mp hid).symm.trans hid'
  obtain ⟨hperm, hvalid⟩ := h
  refine ⟨by rw [hauthz]; exact hperm, ?_⟩
  rw [hauthz]
  intro a ha
  rw [hchal a ha]
  exact hvalid a ha

/-- **An order that was placed out** has one valid authorization, with one valid challenge, for each
of its identifiers. -/
theorem authorized_of_stored (hfk : Referred w) (hchallenges : ChallengesReferred w) {j t : Nat}
    (hj : j < i) {r : AcmeOrder} (h : StoresAt w calls moves j t r) :
    Authorized (servedUpto w calls moves i).world r := by
  obtain ⟨e, n, x, hasked, hplaces, hr⟩ := h
  obtain ⟨o, ps, hstored, hps⟩ := whole_of_placed hi hout hj hplaces
  have hrec := grantsRecorded_of_placedOut hi hout
  -- The order on the trace of the thread is this one.
  have hplaced : r = o := by
    have hmem : (⟨.acme (.insertAcmeOrder n), x⟩ : (s : Stmt) × s.Ans) ∈
        own t (servedUpto w calls moves i).history := hasked.mem_own hj
    have hentry : ∀ r', entry? ⟨.acme (.insertAcmeOrder n), x⟩ = some r' →
        r' ∈ Entry.order o :: entriesOf ps := by
      intro r' hr'
      rw [← hstored]
      exact List.mem_filterMap.mpr ⟨_, hmem, hr'⟩
    cases x with
    | error e => exact absurd (hentry _ rfl) (by simp [entriesOf])
    | ok id =>
      have hid : r.id = id := id_of_placed hasked hplaces
      have horder := hentry _ rfl
      simp only [List.mem_cons, Entry.order.injEq] at horder
      rcases horder with horder | horder
      · rw [hr, ← horder, hid]
      · simp [entriesOf] at horder
  subst hplaced
  have hgranted : authorizationsOf (servedUpto w calls moves i).world r.id = ps.map Prod.fst := by
    have hstart : w.acme.authorizations.rows.filter (·.orderID == r.id) = [] := by
      refine List.filter_eq_nil_iff.mpr fun a ha horder => ?_
      refine not_placed_of_start ?_ hplaces
      rw [← beq_iff_eq.mp horder]
      exact hfk a ha
    unfold authorizationsOf
    rw [hrec.authorizations, List.filter_append, hstart, List.nil_append,
      granted_for hi hout hplaces, hstored, granted_whole]
    refine List.filter_eq_self.mpr fun a ha => ?_
    obtain ⟨p, hp, rfl⟩ := List.mem_map.mp ha
    obtain ⟨id, hgrants⟩ := grants_of_mem hps hp
    exact beq_iff_eq.mpr hgrants.order
  have hdistinct : (ps.map (·.1.id)).Nodup := by
    have hall := (servedUpto w calls moves i).world.acme.authorizations.distinct
    have hsub := (List.filter_sublist (p := (·.orderID == r.id))
      (l := (servedUpto w calls moves i).world.acme.authorizations.rows)).map Sql.Keyed.key
    have hrows : ((servedUpto w calls moves i).world.acme.authorizations.rows.filter
        (·.orderID == r.id)).map Sql.Keyed.key = ps.map (·.1.id) := by
      show (authorizationsOf _ r.id).map Sql.Keyed.key = _
      rw [hgranted, List.map_map]
      rfl
    rw [hrows] at hsub
    exact hsub.nodup hall
  constructor
  · rw [hgranted, grantedTo_map hps]
  · intro a ha
    rw [hgranted] at ha
    obtain ⟨p, hp, rfl⟩ := List.mem_map.mp ha
    obtain ⟨id, hgrants⟩ := grants_of_mem hps hp
    refine ⟨hgrants.valid, ?_⟩
    have hmem : p.1 ∈ granted (stored (own t (servedUpto w calls moves i).history)) := by
      rw [hstored, granted_whole]
      exact List.mem_map_of_mem hp
    have hstart : w.acme.challenges.rows.filter (·.authorizationID == p.1.id) = [] := by
      refine List.filter_eq_nil_iff.mpr fun c hc hid => ?_
      obtain ⟨b, hb⟩ := Option.isSome_iff_exists.mp (hchallenges c hc)
      have hall := (servedUpto w calls moves i).world.acme.authorizations.distinct
      rw [hrec.authorizations, List.map_append, List.nodup_append] at hall
      refine hall.2.2 b.id (List.mem_map_of_mem (Table.mem_of_get? hb)) p.1.id
        (List.mem_map_of_mem (mem_of_granted hi hout hmem).1) ?_
      exact (Table.key_of_get? hb).trans (beq_iff_eq.mp hid)
    have hown : ∀ p ∈ ps, p.2.authorizationID = p.1.id := by
      intro p hp
      obtain ⟨_, h⟩ := grants_of_mem hps hp
      exact h.challenge
    unfold challengesOf
    rw [hrec.challenges, List.filter_append, hstart, List.nil_append,
      challenged_for hi hout hmem, hstored, challenged_whole, filter_challenge hdistinct hown hp,
      List.map_singleton, hgrants.challengeValid]

/-- **Where no order is half placed, ready orders are authorized**: from a database in which they
are, in every state of every run at which each call that has placed an order has answered with
it. -/
theorem readyAuthorized_of_placedOut (hfk : Referred w) (hchallenges : ChallengesReferred w)
    (hstart : ReadyAuthorized w) : ReadyAuthorized (servedUpto w calls moves i).world := by
  intro r hr hready
  rcases ready_origin hi (Table.get?_of_mem hr) hready with hold | ⟨j, t, hj, hstores⟩
  · exact authorized_of_start hi hout hold (hstart r (Table.mem_of_get? hold) hready)
  · exact authorized_of_stored hi hout hfk hchallenges hj hstores

end PlacedOut

end Runs

/-! ## A request that is answered -/

open Samples

attribute [local instance] Go.asciiRuntime

/-- Whether a call has answered with a new order. -/
def answersOrder : Option (Prog sig Reply) → Bool
  | some (.pure (.ordered _ _)) => true
  | _ => false

theorem eq_of_answersOrder {p : Option (Prog sig Reply)} (h : answersOrder p = true) :
    ∃ r obj, p = some (.pure (.ordered r obj)) := by
  unfold answersOrder at h
  split at h
  · exact ⟨_, _, rfl⟩
  · cases h

/-- The order that is placed without a fault is authorized when it is answered. -/
example : ReadyAuthorized
    (servedUpto (accountInstallation ["n0"]) placing (inTurn (List.replicate 25 0)) 25).world := by
  have hanswered : answersOrder ((servedUpto (accountInstallation ["n0"]) placing
      (inTurn (List.replicate 25 0)) 25).threads[0]?) = true := by decide +kernel
  refine readyAuthorized_of_placedOut (by decide) ?_ (referred_accountInstallation _) ?_
    (readyAuthorized_accountInstallation _)
  · intro j t o _ hplaces
    obtain ⟨e, n, x, hasked, _⟩ := hplaces
    have hmove := List.mem_of_getElem? hasked.move
    obtain ⟨_, hmem, heq⟩ := List.mem_map.mp hmove
    obtain rfl := List.eq_of_mem_replicate hmem
    cases heq
    exact eq_of_answersOrder hanswered
  · intro c hc
    cases hc

end Goca
