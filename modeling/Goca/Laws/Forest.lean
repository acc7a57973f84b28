import Goca.Laws.Authority
import Goca.Lib.Alone
import Goca.Lib.Forest
import Goca.Store.Authorities

/-!
# The forest of authorities

Every authority names at most one parent, and the descent of `RevokeCA` follows these links without
a record of where it has been. A call that runs alone keeps them a forest, and the reason is not in
the links: a row that waits for its certificate may name any parent, and when it is completed it may
get another one. It is in the certificates. An authority with a certificate only ever names a parent
with one, so nothing that waits is above an authority with a certificate, and completing an authority
that waits under one cannot close a cycle.

- `Tree`: the invariant, and `tree_step`: every statement keeps it, given what its call has seen.
- `tree_after`: it holds after every sequence of calls, each cut off anywhere.
-/

set_option autoImplicit false

namespace Goca

open Goca.Store
open Interleave (Pool Prog Trace own)
open Sql (Table)

/-! ## Links -/

/-- The parent of an authority. -/
def parentOf (t : Table CA) (i : Nat) : Option Nat := (t.get? i).bind CA.parentID

theorem parentOf_eq_some {t : Table CA} {i p : Nat} :
    parentOf t i = some p ↔ ∃ c, t.get? i = some c ∧ c.parentID = some p :=
  Option.bind_eq_some_iff

/-- A row that is stored sets the link of its number. -/
theorem parentOf_insert (t : Table CA) (c : CA) :
    parentOf (t.insert (fun id => { c with id }) fun _ => rfl) =
      Function.update (parentOf t) (t.seq + 1) c.parentID := by
  funext i
  unfold parentOf
  rw [Table.get?_insert]
  by_cases hi : i = t.seq + 1
  · rw [if_pos hi, hi, Function.update_self, Option.bind_some]
  · rw [if_neg hi, Function.update_of_ne hi]

/-- An update that leaves the parents alone leaves the links alone. -/
theorem parentOf_update (t : Table CA) (p : CA → Bool) (f : CA → CA)
    (hf : ∀ c, Sql.Keyed.key (f c) = Sql.Keyed.key c) (h : ∀ c, (f c).parentID = c.parentID) :
    parentOf (t.update p f hf) = parentOf t := by
  funext i
  unfold parentOf
  rw [Table.get?_update]
  cases t.get? i with
  | none => rfl
  | some c =>
    rw [Option.map_some, Option.bind_some, Option.bind_some]
    split
    · exact h c
    · rfl

/-- A row that is completed sets its link, if it is there. -/
theorem parentOf_complete (t : Table CA) (id : Nat) (c : CA)
    (hf : ∀ r, Sql.Keyed.key (CA.completed r c) = Sql.Keyed.key r) :
    parentOf (t.update (·.id == id) (·.completed c) hf) = parentOf t ∨
      parentOf (t.update (·.id == id) (·.completed c) hf) =
        Function.update (parentOf t) id c.parentID := by
  cases hr : t.get? id with
  | none =>
    refine .inl (congrArg parentOf (Table.update_of_none ?_))
    intro r hmem
    refine Bool.eq_false_iff.mpr ?_
    intro hid
    obtain rfl : r.id = id := beq_iff_eq.mp hid
    exact absurd ((Table.get?_of_mem hmem).symm.trans hr) (fun h => nomatch h)
  | some r =>
    refine .inr ?_
    funext i
    unfold parentOf
    by_cases hi : i = id
    · have hself : ∀ r : CA, Sql.Keyed.key r = id → (r.id == id) = true :=
        fun _ hk => beq_iff_eq.mpr hk
      rw [hi, Function.update_self, Table.get?_update_self t hf hself, hr]
      rfl
    · rw [Function.update_of_ne hi, Table.get?_update]
      cases hr' : t.get? i with
      | none => rfl
      | some r' =>
        have hne : (r'.id == id) = false := by
          rw [show r'.id = i from Table.key_of_get? hr']
          exact beq_eq_false_iff_ne.mpr hi
        rw [Option.map_some, hne, if_neg Bool.false_ne_true]

/-- What holds of the authorities between two calls: a parent is there, and has a certificate if its
child has one; who waits for a certificate has none; and the links make a forest. -/
structure Tree (t : Table CA) : Prop where
  parents : ∀ i c p, t.get? i = some c → c.parentID = some p →
    ∃ d, t.get? p = some d ∧ (c.certPEM.isSome = true → d.certPEM.isSome = true)
  waiting : ∀ i c, t.get? i = some c → c.status = .pending → c.certPEM = none
  acyclic : Forest.Acyclic (parentOf t)

theorem tree_empty : Tree .empty := by
  refine ⟨?_, ?_, ?_⟩
  · intro i c p hc
    cases hc
  · intro i c hc
    cases hc
  · intro i k h
    cases h

/-- What is above an authority that is there is there, and has a certificate if it has one. -/
theorem Tree.above {t : Table CA} (h : Tree t) {i j : Nat} {c : CA} (hc : t.get? i = some c)
    (hj : Forest.Beneath (parentOf t) i j) :
    ∃ d, t.get? j = some d ∧ (c.certPEM.isSome = true → d.certPEM.isSome = true) := by
  refine hj.induction (P := fun j => ∃ d, t.get? j = some d ∧
    (c.certPEM.isSome = true → d.certPEM.isSome = true)) ⟨c, hc, id⟩ ?_
  rintro a b hab ⟨d, hd, hcert⟩
  obtain ⟨d', hd', hb⟩ := parentOf_eq_some.mp hab
  obtain rfl := Option.some.inj (hd.symm.trans hd')
  obtain ⟨f, hf, hcert'⟩ := h.parents a d b hd hb
  exact ⟨f, hf, fun hc => hcert' (hcert hc)⟩

/-! ## What a call has seen -/

/-- What a call that runs alone knows of the rows it has read: they are there, with the certificates
they had, and a row that waited is still without one as long as the call completed none. -/
structure Seen (q : Trace sig) (t : Table CA) : Prop where
  kept : ∀ r, Read q r → ∃ d, t.get? r.id = some d ∧ (r.certPEM.isSome = true → d.certPEM.isSome = true)
  waiting : Uncompleted q → ∀ r, Read q r → r.status = .pending →
    ∃ d, t.get? r.id = some d ∧ d.certPEM = none

theorem seen_nil (t : Table CA) : Seen [] t := by
  refine ⟨?_, ?_⟩
  · rintro r ⟨x, hx, _⟩
    cases hx
  · rintro _ r ⟨x, hx, _⟩
    cases hx

/-- A parent that was read is there, with a certificate if one was asked for. -/
theorem Seen.parent {q : Trace sig} {t : Table CA} (h : Seen q t) {certified : Prop} {p : Nat}
    (hp : ReadParent q certified p) :
    ∃ d, t.get? p = some d ∧ (certified → d.certPEM.isSome = true) := by
  obtain ⟨r, hr, rfl, hcert⟩ := hp
  obtain ⟨d, hd, hkept⟩ := h.kept r hr
  exact ⟨d, hd, fun hc => hkept (hcert hc)⟩

/-! ## One statement -/

section Step

variable [Go.Runtime] {e : Env} {w w' : World} {s : Stmt} {x : s.Ans}

/-- A statement gives no row of the authorities a new status `pending`, but for one it stores. -/
def Unpends (s : Stmt) : Prop := ∀ id, s ≠ .ca (.setCAStatus id .pending)

/-- What a statement changes of the row of an authority that is there: nothing that the forest is
about, or it completes it. -/
theorem row_step (h : exec e w s = some (x, w')) (hs : Unpends s) {i : Nat} {r : CA}
    (hr : w.ca.cas.get? i = some r) :
    (∃ r', w'.ca.cas.get? i = some r' ∧ r'.parentID = r.parentID ∧ r'.certPEM = r.certPEM ∧
      (r'.status = .pending → r.status = .pending)) ∨
    ∃ c, s = .ca (.completeCA i c) ∧ w'.ca.cas.get? i = some (r.completed c) := by
  have hstep := authority_step h i
  rw [hr] at hstep
  generalize w'.ca.cas.get? i = r' at hstep ⊢
  cases hstep with
  | same => exact .inl ⟨r, rfl, rfl, rfl, id⟩
  | marked id => exact .inl ⟨_, rfl, rfl, rfl, fun hp => hp⟩
  | status st _ =>
    refine .inl ⟨_, rfl, rfl, rfl, ?_⟩
    intro hp
    obtain rfl : st = .pending := hp
    exact absurd rfl (hs i)
  | numbered => exact .inl ⟨_, rfl, rfl, rfl, fun hp => hp⟩
  | completed c => exact .inr ⟨c, rfl, rfl⟩

/-- A row that is there stays, and keeps its certificate. -/
theorem certificate_kept {q : Trace sig} (h : exec e w s = some (x, w')) (hs : RowWarrant q s)
    (hp : Unpends s) {i : Nat} {r : CA} (hr : w.ca.cas.get? i = some r) :
    ∃ r', w'.ca.cas.get? i = some r' ∧ (r.certPEM.isSome = true → r'.certPEM.isSome = true) := by
  rcases row_step h hp hr with ⟨r', hr', _, hcert, _⟩ | ⟨c, rfl, hr'⟩
  · refine ⟨r', hr', ?_⟩
    rw [hcert]
    exact id
  · have hcert : c.certPEM.isSome = true := CompleteWarrant.certificate hs
    exact ⟨_, hr', fun _ => hcert⟩

/-- A statement leaves the links as they are, or sets the link of the row that it stores or
completes. -/
theorem link_step (h : exec e w s = some (x, w')) :
    parentOf w'.ca.cas = parentOf w.ca.cas ∨
    (∃ c, s = .ca (.insertCA c) ∧ parentOf w'.ca.cas =
      Function.update (parentOf w.ca.cas) (w.ca.cas.seq + 1) c.parentID) ∨
    ∃ id c, s = .ca (.completeCA id c) ∧
      parentOf w'.ca.cas = Function.update (parentOf w.ca.cas) id c.parentID := by
  refine exec_ca_induction (P := fun s t t' => parentOf t'.cas = parentOf t.cas ∨
    (∃ c, s = .ca (.insertCA c) ∧
      parentOf t'.cas = Function.update (parentOf t.cas) (t.cas.seq + 1) c.parentID) ∨
    ∃ id c, s = .ca (.completeCA id c) ∧
      parentOf t'.cas = Function.update (parentOf t.cas) id c.parentID) (fun _ _ => .inl rfl) ?_ h
  intro s t _
  have hsame {p : CA → Bool} {f : CA → CA} {hf : ∀ c, (f c).id = c.id}
      (hkeep : ∀ c, (f c).parentID = c.parentID) :
      parentOf (t.updateCas p f hf).cas = parentOf t.cas := parentOf_update t.cas p f hf hkeep
  cases s with
  | insertCA c =>
    simp only [CaTables.exec]
    split
    · exact .inl rfl
    · exact .inr (.inl ⟨c, rfl, parentOf_insert t.cas c⟩)
  | completeCA id c =>
    simp only [CaTables.exec]
    split
    · exact .inl rfl
    · rcases parentOf_complete t.cas id c (fun _ => rfl) with hsame | hset
      · exact .inl hsame
      · exact .inr (.inr ⟨id, c, rfl, hset⟩)
  | insertCertificate c =>
    simp only [CaTables.exec]
    split <;> exact .inl rfl
  | setDefaultCA id => exact .inl (hsame fun _ => rfl)
  | setCAStatus id st => exact .inl (hsame fun _ => rfl)
  | nextCRLNumber id => exact .inl (hsame fun _ => rfl)
  | _ => exact .inl rfl

/-- What was read before a statement is known after it. -/
theorem seen_step {q : Trace sig} (h : exec e w s = some (x, w')) (hs : RowWarrant q s)
    (hp : Unpends s) (hw : Tree w.ca.cas) (hq : Seen q w.ca.cas) :
    Seen (q ++ [⟨s, x⟩]) w'.ca.cas := by
  have hold {r : CA} (hr : Read (q ++ [⟨s, x⟩]) r) :
      Read q r ∨ (w'.ca = w.ca ∧ w.ca.cas.get? r.id = some r) := by
    obtain ⟨y, hy, hmem⟩ := hr
    rcases List.mem_append.mp hy with hy | hy
    · exact .inl ⟨y, hy, hmem⟩
    · obtain rfl := List.mem_singleton.mp hy
      obtain ⟨hsame, hrow⟩ := read_stored h hmem
      exact .inr ⟨hsame, Table.get?_of_mem hrow⟩
  refine ⟨?_, ?_⟩
  · intro r hr
    rcases hold hr with hr | ⟨hsame, hrow⟩
    · obtain ⟨d, hd, hcert⟩ := hq.kept r hr
      obtain ⟨d', hd', hcert'⟩ := certificate_kept h hs hp hd
      exact ⟨d', hd', fun hc => hcert' (hcert hc)⟩
    · rw [hsame]
      exact ⟨r, hrow, id⟩
  · intro hun r hr hpending
    rcases hold hr with hr | ⟨hsame, hrow⟩
    · have hun' : Uncompleted q := fun y hy => hun y (List.mem_append_left _ hy)
      obtain ⟨d, hd, hcert⟩ := hq.waiting hun' r hr hpending
      rcases row_step h hp hd with ⟨d', hd', _, hsame, _⟩ | ⟨c, rfl, _⟩
      · exact ⟨d', hd', hsame.trans hcert⟩
      · exact absurd rfl (hun _ (List.mem_append_right _ (List.mem_singleton_self _)) r.id c)
    · rw [hsame]
      exact ⟨r, hrow, hw.waiting _ r hrow hpending⟩

/-- A row after a statement is one before it, completed or not, or the row it stores. -/
theorem row_before (h : exec e w s = some (x, w')) (hp : Unpends s) {i : Nat} {r' : CA}
    (hr' : w'.ca.cas.get? i = some r') :
    (∃ r, w.ca.cas.get? i = some r ∧ r'.parentID = r.parentID ∧ r'.certPEM = r.certPEM ∧
      (r'.status = .pending → r.status = .pending)) ∨
    (∃ c r, s = .ca (.completeCA i c) ∧ r' = CA.completed r c) ∨
    ∃ c, s = .ca (.insertCA c) ∧ r' = { c with id := i } := by
  cases hr : w.ca.cas.get? i with
  | none =>
    have hstep := authority_step h i
    rw [hr, hr'] at hstep
    obtain ⟨c, hc, _, _, hrow⟩ := hstep.new
    exact .inr (.inr ⟨c, hc, hrow⟩)
  | some r =>
    rcases row_step h hp hr with ⟨d, hd, hsame⟩ | ⟨c, hc, hd⟩
    · obtain rfl := Option.some.inj (hr'.symm.trans hd)
      exact .inl ⟨r, rfl, hsame⟩
    · exact .inr (.inl ⟨c, r, hc, Option.some.inj (hr'.symm.trans hd)⟩)

/-- **One statement** keeps the forest, given what its call has seen. -/
theorem tree_step {q : Trace sig} (h : exec e w s = some (x, w')) (hs : RowWarrant q s)
    (hp : Unpends s) (hq : Seen q w.ca.cas) (hw : Tree w.ca.cas) : Tree w'.ca.cas := by
  -- a parent that was read is there after the statement, too
  have hparent {certified : Prop} {p : Nat} (hread : ReadParent q certified p) :
      ∃ d, w'.ca.cas.get? p = some d ∧ (certified → d.certPEM.isSome = true) := by
    obtain ⟨d, hd, hcert⟩ := hq.parent hread
    obtain ⟨d', hd', hcert'⟩ := certificate_kept h hs hp hd
    exact ⟨d', hd', fun hc => hcert' (hcert hc)⟩
  refine ⟨?_, ?_, ?_⟩
  · intro i c p hc hcp
    rcases row_before h hp hc with ⟨r, hr, hparentID, hcertPEM, _⟩ | ⟨n, r, rfl, rfl⟩ | ⟨n, rfl, rfl⟩
    · rw [hparentID] at hcp
      obtain ⟨d, hd, hcert⟩ := hw.parents i r p hr hcp
      obtain ⟨d', hd', hcert'⟩ := certificate_kept h hs hp hd
      rw [hcertPEM]
      exact ⟨d', hd', fun hsome => hcert' (hcert hsome)⟩
    · obtain ⟨d, hd, hcert⟩ := hparent (CompleteWarrant.parent hs p hcp)
      exact ⟨d, hd, fun _ => hcert trivial⟩
    · exact hparent (InsertWarrant.parent hs p hcp)
  · intro i c hc hpending
    rcases row_before h hp hc with ⟨r, hr, _, hcertPEM, hkept⟩ | ⟨n, r, rfl, rfl⟩ | ⟨n, rfl, rfl⟩
    · rw [hcertPEM]
      exact hw.waiting i r hr (hkept hpending)
    · have hactive : n.status = .active := CompleteWarrant.status hs
      exact absurd (hactive.symm.trans hpending) (by decide)
    · rcases InsertWarrant.row hs with ⟨_, hcert, _⟩ | ⟨hactive, _⟩
      · exact hcert
      · exact absurd (hactive.symm.trans hpending) (by decide)
  · rcases link_step h with hsame | ⟨c, rfl, hset⟩ | ⟨id, c, rfl, hset⟩
    · rw [hsame]
      exact hw.acyclic
    · rw [hset]
      refine hw.acyclic.update ?_
      rintro p hcp hbeneath
      -- what is above a row is a row, and the new number is none
      obtain ⟨d, hd, _⟩ := hq.parent (InsertWarrant.parent hs p hcp)
      obtain ⟨d', hd', _⟩ := hw.above hd hbeneath
      rw [Table.get?_eq_none_of_lt (Nat.lt_succ_self _)] at hd'
      cases hd'
    · rw [hset]
      refine hw.acyclic.update ?_
      rintro p hcp hbeneath
      -- the parent has a certificate, so everything above it has; the row that waits has none
      obtain ⟨d, hd, hcert⟩ := hq.parent (CompleteWarrant.parent hs p hcp)
      obtain ⟨d', hd', hcert'⟩ := hw.above hd hbeneath
      obtain ⟨r, hr, rfl, hpending⟩ := CompleteWarrant.waiting hs
      obtain ⟨d'', hd'', hnone⟩ := hq.waiting (CompleteWarrant.once hs) r hr hpending
      obtain rfl := Option.some.inj (hd'.symm.trans hd'')
      have hsome := hcert' (hcert trivial)
      rw [hnone] at hsome
      cases hsome

end Step

theorem unpends_of_within {ks : List Effect} (h : .setCAStatus ∉ ks) {s : Stmt}
    (hs : Within ks s) : Unpends s := by
  rintro id rfl
  exact h hs

/-! ## Sequences of calls -/

section After

variable [Go.Runtime]

/-- A call that runs alone over a world, one statement for each environment, to its end or cut off
before. -/
def alone (w : World) (c : Call) (es : List Env) : Pool sig Reply World :=
  served w [c] (Pool.solo es)

/-- What the next move of a call that runs alone does. -/
theorem alone_snoc (w : World) (c : Call) (es : List Env) (e : Env) :
    alone w c (es ++ [e]) = (alone w c es).step exec 0 e := by
  unfold alone served
  rw [Pool.solo, List.map_append, Pool.run_append]
  rfl

/-- The world after calls that run one after the other. -/
def after (w : World) : List (Call × List Env) → World
  | [] => w
  | (c, es) :: rest => after (alone w c es).world rest

/-- A request that sets no status of an authority: all but `SetCAStatus` and `RevokeCA`. -/
def KeepsStatus (r : Request) : Prop := Effect.setCAStatus ∉ r.effects

instance (r : Request) : Decidable (KeepsStatus r) :=
  inferInstanceAs (Decidable (Effect.setCAStatus ∉ r.effects))

/-- **One call** that runs alone keeps the forest, wherever it is cut off. -/
theorem tree_alone {w : World} {c : Call} (hc : KeepsStatus c.request) (es : List Env)
    (hw : Tree w.ca.cas) : Tree (alone w c es).world.ca.cas := by
  have htraced (c : Call) : c.serve.Traced (fun q s => RowWarrant q s ∧ Within c.request.effects s)
      (fun _ _ => True) [] := (serve_rowWarrant c).and_uses (serve_uses c)
  have hinv : Tree (served w [c] (Pool.solo es)).world.ca.cas ∧
      Seen (own 0 (served w [c] (Pool.solo es)).history) (served w [c] (Pool.solo es)).world.ca.cas :=
    served_invariant (P := fun hist w => Tree w.ca.cas ∧ Seen (own 0 hist) w.ca.cas) htraced
      ⟨hw, seen_nil _⟩ ?_ (Pool.solo es)
  · exact hinv.1
  · rintro hist w e t c' s x w' ht ⟨hrow, hwithin⟩ hexec ⟨htree, hseen⟩
    obtain ⟨rfl, rfl⟩ : t = 0 ∧ c' = c := by
      cases t with
      | zero => exact ⟨rfl, (Option.some.inj ht).symm⟩
      | succ t => cases ht
    have hp := unpends_of_within hc hwithin
    rw [Interleave.own_snoc_self]
    exact ⟨tree_step hexec hrow hp hseen htree, seen_step hexec hrow hp htree hseen⟩

/-- **Every sequence of calls** keeps the forest. -/
theorem tree_after {w : World} {ops : List (Call × List Env)}
    (hops : ∀ op ∈ ops, KeepsStatus op.1.request) (hw : Tree w.ca.cas) :
    Tree (after w ops).ca.cas := by
  induction ops generalizing w with
  | nil => exact hw
  | cons op ops ih =>
    refine ih (fun op' hop' => hops op' (List.mem_cons_of_mem op hop')) ?_
    exact tree_alone (hops op List.mem_cons_self) op.2 hw

end After

end Goca
