import Goca.Laws.Authority
import Goca.Laws.Fingerprints
import Goca.Laws.Stops

/-!
# An import that fails

`ImportCA` and `CompleteSubordinate` write one row after the other, each in a statement of its own,
and stop at the first error. What was written by then stays. So the authorities are as they were
exactly where no write took effect, or nothing refuses the call from its first effective write on:
neither a statement behind it, nor the check that a default has a key.
-/

set_option autoImplicit false

namespace Goca

open Goca.Pki (PemText X509)
open Goca.Store
open Interleave (Act Pool Prog Trace)
open Interleave.Act
open Sql (Table)

section

variable [Go.Runtime]

/-- The call has returned an error. -/
def Failed (w : World) (c : Call) (es : List Env) : Prop :=
  ((alone w c es).threads[0]?.bind Prog.result?).any Reply.isError = true

/-- **Atomicity of a call**: if it returns an error, the authorities are those before it. -/
def Atomic (w : World) (c : Call) (es : List Env) : Prop :=
  Failed w c es → (alone w c es).world.ca.cas.rows = w.ca.cas.rows

/-- A statement over the CA tables takes effect: the clock runs, the connection holds until it is
done, and no constraint refuses it. -/
def TakesEffect (e : Env) (w : World) : Stmt → Prop
  | .ca s => 0 < e.now ∧ e.fault.commits = true ∧ ∃ a, (w.ca.exec e s).1 = .ok a
  | _ => False

/-- At move `n` the call asks for its first write. -/
structure FirstWrite (w : World) (c : Call) (es : List Env) (n : Nat) (e : Env) (s : Stmt) :
    Prop where
  move : es[n]? = some e
  next : (alone w c (es.take n)).next? 0 = some s
  writes : writesCA s = true
  first : ∀ x ∈ Interleave.own 0 (alone w c (es.take n)).history, writesCA x.1 = false

/-- The first write of a call does not take effect, if it comes to one. -/
def FirstWriteFails (w : World) (c : Call) (es : List Env) : Prop :=
  ∀ n e s, FirstWrite w c es n e s → ¬ TakesEffect e (alone w c (es.take n)).world s

/-- At move `n` the call asks this, and is answered. -/
structure AsksAt (w : World) (c : Call) (es : List Env) (n : Nat) (e : Env) (s : Stmt) : Prop where
  move : es[n]? = some e
  time : 0 < e.now
  next : (alone w c (es.take n)).next? 0 = some s

/-- A statement that writes or reads back an authority is refused: the connection fails, a
constraint stands against it, or there is no such row. -/
def Refused (e : Env) (w : World) : Stmt → Prop
  | .ca (.insertCA c) => e.fault ≠ .none ∨ w.ca.caConflict c ≠ none
  | .ca (.completeCA id c) => e.fault ≠ .none ∨ w.ca.cas.get? id = none ∨
    ∃ p, c.parentID = some p ∧ w.ca.cas.get? p = none
  | .ca (.selectCA id) => e.fault ≠ .none ∨ w.ca.cas.get? id = none
  | .ca (.setDefaultCA _) => e.fault ≠ .none
  | _ => False

/-- From move `n` on nothing refuses the call: neither what it asks nor, at its end, the check that
a default has a key. -/
structure Unhindered (acme : Acme.Service) (r : Incoming) (w : World) (es : List Env) (n : Nat) :
    Prop where
  default : r.Keyless → (alone w (r.call acme) es).next? 0 ≠ none
  statements : ∀ m e s, n ≤ m → AsksAt w (r.call acme) es m e s →
    ¬ Refused e (alone w (r.call acme) (es.take m)).world s

end

/-! ## What the calls ask -/

/-- A write that was answered with an error. -/
def failedWrite : (s : Stmt) × s.Ans → Bool
  | ⟨.ca (.insertCA _), .error _⟩ | ⟨.ca (.completeCA _ _), .error _⟩ => true
  | _ => false

/-- So far no write has failed. -/
def Unfailed (q : Trace sig) : Prop := ∀ x ∈ q, failedWrite x = false

/-- A call goes on after a write only if it was answered: what it asks, and of which rows. -/
def AsksInOrder (w : World) (q : Trace sig) : Stmt → Prop
  | .ca (.insertCA _) => Unfailed q
  | .ca (.completeCA id c) => Unfailed q ∧ c.status = .active ∧
    ∃ r, w.ca.cas.get? id = some r ∧ r.status = .pending
  | .ca (.setDefaultCA _) => Unfailed q ∧ ∃ x ∈ q, writesCA x.1 = true
  | .ca (.setCAStatus _ _) | .ca (.nextCRLNumber _) => False
  | _ => True

theorem asksInOrder_of_within {w : World} {q : Trace sig} {s : Stmt} (hs : Within [] s) :
    AsksInOrder w q s := by
  unfold AsksInOrder
  split
  all_goals first | exact absurd hs List.not_mem_nil | trivial

theorem failedWrite_of_within {s : Stmt} {x : s.Ans} (hs : Within [] s) :
    failedWrite ⟨s, x⟩ = false := by
  unfold failedWrite
  split
  · next heq =>
    cases heq
    exact absurd hs List.not_mem_nil
  · next heq =>
    cases heq
    exact absurd hs List.not_mem_nil
  · rfl

/-- A part of a call that keeps the rows it found, as they are, and lets no write fail. -/
structure Ahead (w : World) (q : Trace sig) (w' : World) (q' : Trace sig) : Prop where
  extends_ : q <+: q'
  rows : ∀ i r, w.ca.cas.get? i = some r → w'.ca.cas.get? i = some r

theorem Ahead.refl (w : World) (q : Trace sig) : Ahead w q w q :=
  ⟨List.prefix_refl q, fun _ _ h => h⟩

theorem Ahead.trans {w w' w'' : World} {q q' q'' : Trace sig} (h : Ahead w q w' q')
    (h' : Ahead w' q' w'' q'') : Ahead w q w'' q'' :=
  ⟨h.extends_.trans h'.extends_, fun i r hr => h'.rows i r (h.rows i r hr)⟩

section Walk

variable [Go.Runtime] {ε α : Type} {w : World} {q : Trace sig}

/-- What only reads leaves everything as it is. -/
theorem reading_alone {x : Handler ε α} (hx : x.Uses (Within [])) (hq : Unfailed q) :
    x.Alone exec AnyEnv AsksInOrder
      (fun w' q' _ => w'.ca.cas = w.ca.cas ∧ q <+: q' ∧ Unfailed q') w q := by
  refine Prog.Uses.alone
    (J := fun (w' : World) q' => w'.ca.cas = w.ca.cas ∧ q <+: q' ∧ Unfailed q') hx
    (fun _ _ _ _ hs => asksInOrder_of_within hs) ?_ ⟨rfl, List.prefix_refl q, hq⟩
  intro e w' q' s x w'' hs hJ h
  refine ⟨(cas_kept h (hs.mono (List.nil_subset _))).trans hJ.1,
    hJ.2.1.trans (List.prefix_append q' _), ?_⟩
  intro y hy
  rcases List.mem_append.mp hy with hy | hy
  · exact hJ.2.2 y hy
  · rw [List.mem_singleton.mp hy]
    exact failedWrite_of_within hs

theorem reading_bind {β : Type} {post : World → Trace sig → Except ε β → Prop} {x : Handler ε α}
    {f : α → Handler ε β} (hx : x.Uses (Within [])) (hq : Unfailed q)
    (hf : ∀ w' q' a, w'.ca.cas = w.ca.cas → q <+: q' → Unfailed q' →
      (f a).Alone exec AnyEnv AsksInOrder post w' q')
    (herror : ∀ w' q' e, post w' q' (.error e)) :
    (x >>= f).Alone exec AnyEnv AsksInOrder post w q :=
  Alone.bind (reading_alone hx hq) (fun w' q' a h => hf w' q' a h.1 h.2.1 h.2.2)
    fun w' q' e _ => herror w' q' e

/-- What an operation promises when it succeeds: no write has failed, and the rows that were there
are there. -/
def Succeeds (w : World) (q : Trace sig) (w' : World) (q' : Trace sig) (r : Except ε α) : Prop :=
  ∀ a, r = .ok a → Unfailed q' ∧ Ahead w q w' q'

omit [Go.Runtime] in
theorem Ahead.of_same {w' : World} {q' : Trace sig} (hw : w'.ca.cas = w.ca.cas) (hq : q <+: q') :
    Ahead w q w' q' := by
  refine ⟨hq, fun i r hr => ?_⟩
  rw [hw]
  exact hr

omit [Go.Runtime] in
theorem unfailed_snoc {s : Stmt} {x : s.Ans} (hq : Unfailed q) (hx : failedWrite ⟨s, x⟩ = false) :
    Unfailed (q ++ [⟨s, x⟩]) := by
  intro y hy
  rcases List.mem_append.mp hy with hy | hy
  · exact hq y hy
  · rw [List.mem_singleton.mp hy]
    exact hx

/-- Inserting an authority leaves the others as they are. -/
theorem rows_of_inserted {e : Env} {w' : World} {c : CA} {x : Except Go.Error Nat}
    (h : exec e w (.ca (.insertCA c)) = some (x, w')) {i : Nat} {r : CA}
    (hr : w.ca.cas.get? i = some r) : w'.ca.cas.get? i = some r := by
  have hstep := authority_step h i
  rw [hr] at hstep
  generalize w'.ca.cas.get? i = r' at hstep ⊢
  cases hstep
  rfl

/-- **Storing an authority**: a write, and only reading around it. -/
theorem createCA_inOrder (c : CA) (hq : Unfailed q) :
    (Store.createCA c).Alone exec AnyEnv AsksInOrder
      (fun w' q' r => Succeeds w q w' q' r ∧
        ∀ a, r = .ok a → ∃ x ∈ q', writesCA x.1 = true) w q := by
  refine reading_bind (markDefault_uses c) hq ?_
    fun _ _ _ => ⟨fun _ h => (nomatch h), fun _ h => nomatch h⟩
  intro w₁ q₁ c' hw₁ hq₁ hfine₁
  refine Alone.bind (m := fun w' q' r => Succeeds w q w' q' r ∧
    ∀ a, r = .ok a → ∃ x ∈ q', writesCA x.1 = true) ?_ ?_
    fun _ _ _ _ => ⟨fun _ h => (nomatch h), fun _ h => nomatch h⟩
  · refine Alone.mapResult ⟨hfine₁, ?_⟩
    intro e x w₂ _ h
    refine ⟨?_, fun _ _ => ⟨_, List.mem_append_right q₁ (List.mem_singleton_self _), rfl⟩⟩
    intro id hid
    cases x with
    | error err => cases hid
    | ok id' =>
      refine ⟨unfailed_snoc hfine₁ rfl, (Ahead.of_same hw₁ hq₁).trans ?_⟩
      exact ⟨List.prefix_append q₁ _, fun i r hr => rows_of_inserted h hr⟩
  · intro w₂ q₂ id h₂
    obtain ⟨hfine₂, hahead₂⟩ := h₂.1 id rfl
    obtain ⟨x, hx, hwrites⟩ := h₂.2 id rfl
    refine Prog.Alone.mono ?_ (reading_alone (getCA_uses id) hfine₂)
    intro w' q' r h
    exact ⟨fun _ _ => ⟨h.2.2, hahead₂.trans (.of_same h.1 h.2.1)⟩,
      fun _ _ => ⟨x, h.2.1.subset hx, hwrites⟩⟩

/-- A row that was read is there. -/
theorem rowRead_inOrder {s : CaStmt} {f : Except Go.Error s.Res → Except Go.Error CA}
    (hs : Within [] (.ca s)) (hf : ∀ x c, f x = .ok c → c ∈ authoritiesOf ⟨.ca s, x⟩)
    (hq : Unfailed q) : ((ca s).mapResult f).Alone exec AnyEnv AsksInOrder
      (fun w' q' r => w'.ca.cas = w.ca.cas ∧ q <+: q' ∧ Unfailed q' ∧
        ∀ c, r = .ok c → w'.ca.cas.get? c.id = some c) w q := by
  refine Alone.mapResult ⟨asksInOrder_of_within hs, ?_⟩
  intro e x w' _ h
  refine ⟨cas_kept h (hs.mono (List.nil_subset _)), List.prefix_append q _,
    unfailed_snoc hq (failedWrite_of_within hs), ?_⟩
  intro c hc
  obtain ⟨hca, hmem⟩ := read_stored h (hf x c hc)
  rw [hca]
  exact Table.get?_of_mem hmem

/-- The row that a reference finds is there. -/
theorem getCAByRef_inOrder (ref : String) (hq : Unfailed q) :
    (getCAByRef ref).Alone exec AnyEnv AsksInOrder (fun w' q' r => w'.ca.cas = w.ca.cas ∧
      q <+: q' ∧ Unfailed q' ∧ ∀ c, r = .ok c → w'.ca.cas.get? c.id = some c) w q := by
  have hrow (x : Except Go.Error (Option CA)) (c : CA) (h : row x = .ok c) : x = .ok (some c) := by
    rcases x with e | _ | c'
    · cases h
    · cases h
    · cases h
      rfl
  unfold getCAByRef
  by_cases hblank : Go.trimSpace ref = ""
  · rw [if_pos hblank]
    refine rowRead_inOrder trivial ?_ hq
    intro x c h
    rw [hrow x c h]
    exact List.mem_singleton_self c
  · rw [if_neg hblank]
    refine rowRead_inOrder trivial ?_ hq
    intro x c h
    rw [hrow x c h]
    exact List.mem_singleton_self c

/-- What only reads may be asked at any time. -/
theorem reading_any {x : Handler ε α} (hx : x.Uses (Within [])) :
    x.Alone exec AnyEnv AsksInOrder (fun _ _ _ => True) w q :=
  Prog.Uses.alone (J := fun _ _ => True) hx (fun _ _ _ _ hs => asksInOrder_of_within hs)
    (fun _ _ _ _ _ _ _ _ _ => trivial) trivial

/-- The default is moved after a write. -/
theorem setDefaultCA_inOrder (id : Nat) (hq : Unfailed q) (hwrite : ∃ x ∈ q, writesCA x.1 = true) :
    (Store.setDefaultCA id).Alone exec AnyEnv AsksInOrder (fun _ _ _ => True) w q :=
  ⟨⟨hq, hwrite⟩, fun _ _ _ _ _ => trivial⟩

/-- Completing a row that waits. -/
theorem completeCA_inOrder {id : Nat} {c r : CA} (hq : Unfailed q) (hc : c.status = .active)
    (hr : w.ca.cas.get? id = some r) (hpending : r.status = .pending) :
    (Store.completeCA id c).Alone exec AnyEnv AsksInOrder (fun _ q' res =>
      ∀ a, res = .ok a → Unfailed q' ∧ ∃ x ∈ q', writesCA x.1 = true) w q := by
  refine Alone.mapResult ⟨⟨hq, hc, r, hr, hpending⟩, ?_⟩
  intro e x w' _ _ a ha
  cases x with
  | error err => cases ha
  | ok n =>
    exact ⟨unfailed_snoc hq rfl, _, List.mem_append_right q (List.mem_singleton_self _), rfl⟩

variable (s : Ca.Service)

attribute [local irreducible] Act.Alone

/-- One certificate of a chain. -/
theorem importAnchor_inOrder (actor : String) (anchor : X509) (hq : Unfailed q) :
    (s.importAnchor actor anchor).Alone exec AnyEnv AsksInOrder (Succeeds w q) w q := by
  refine reading_bind ((ca_uses trivial).mapResult _).attempt hq ?_ fun _ _ _ _ h => nomatch h
  intro w₁ q₁ known hw₁ hq₁ hfine₁
  cases known with
  | ok c =>
    refine alone_pure ?_
    exact fun _ _ => ⟨hfine₁, .of_same hw₁ hq₁⟩
  | error err =>
    by_cases hca : anchor.isCA = false
    · show Alone _ _ _ _ (if anchor.isCA = false then pure () else _) _ _
      rw [if_pos hca]
      refine alone_pure ?_
      exact fun _ _ => ⟨hfine₁, .of_same hw₁ hq₁⟩
    · show Alone _ _ _ _ (if anchor.isCA = false then pure () else _) _ _
      rw [if_neg hca]
      refine reading_bind (findIssuerID_uses anchor) hfine₁ ?_ fun _ _ _ _ h => nomatch h
      intro w₂ q₂ parentID hw₂ hq₂ hfine₂
      generalize (if anchor.subject.commonName = "" then "Imported anchor"
        else anchor.subject.commonName) = name
      refine reading_bind (uniqueName_uses name) hfine₂ ?_ fun _ _ _ _ h => nomatch h
      intro w₃ q₃ unique hw₃ hq₃ hfine₃
      refine reading_bind (uniqueSlug_uses name) hfine₃ ?_ fun _ _ _ _ h => nomatch h
      intro w₄ q₄ slug hw₄ hq₄ hfine₄
      have hahead : Ahead w q w₄ q₄ := .of_same (hw₄.trans (hw₃.trans (hw₂.trans hw₁)))
        (hq₁.trans (hq₂.trans (hq₃.trans hq₄)))
      refine Alone.bind (m := Succeeds w q) ?_ ?_ fun _ _ _ _ _ h => nomatch h
      · refine Alone.mapResult (Alone.mono ?_ (createCA_inOrder _ hfine₄))
        intro w' q' r h c hc
        cases r with
        | error e => cases hc
        | ok c' =>
          obtain ⟨hfine, hahead'⟩ := h.1 c' rfl
          exact ⟨hfine, hahead.trans hahead'⟩
      · intro w₅ q₅ c h₅
        obtain ⟨hfine₅, hahead₅⟩ := h₅ c rfl
        refine Alone.mono ?_ (reading_alone (audit_uses s _ _ _ _) hfine₅)
        intro w' q' r h _ _
        exact ⟨h.2.2, hahead₅.trans (.of_same h.1 h.2.1)⟩

theorem importAnchors_inOrder (actor : String) (anchors : List X509) (hq : Unfailed q) :
    (s.importAnchors actor anchors).Alone exec AnyEnv AsksInOrder (Succeeds w q) w q := by
  induction anchors generalizing w q with
  | nil =>
    refine alone_pure ?_
    exact fun _ _ => ⟨hq, .refl w q⟩
  | cons anchor rest ih =>
    refine Alone.bind (importAnchor_inOrder s actor anchor hq) ?_ fun _ _ _ _ _ h => nomatch h
    intro w₁ q₁ a h₁
    obtain ⟨hfine₁, hahead₁⟩ := h₁ a rfl
    refine Alone.mono ?_ (ih hfine₁)
    intro w' q' r h b hb
    obtain ⟨hfine, hahead⟩ := h b hb
    exact ⟨hfine, hahead₁.trans hahead⟩

/-- **The issuer of a certificate**: the writes of the chain, one after the other. -/
theorem linkIssuer_inOrder (cert : X509) (chainPEM : PemText) (actor : String)
    (hq : Unfailed q) :
    (s.linkIssuer cert chainPEM actor).Alone exec AnyEnv AsksInOrder (Succeeds w q) w q := by
  unfold Ca.Service.linkIssuer
  by_cases hself : Pki.isSelfSigned cert = true
  · rw [if_pos hself]
    refine alone_pure ?_
    exact fun _ _ => ⟨hq, .refl w q⟩
  · rw [if_neg hself]
    refine reading_bind (findIssuerID_uses cert) hq ?_ fun _ _ _ _ h => nomatch h
    intro w₁ q₁ stored hw₁ hq₁ hfine₁
    have hahead₁ : Ahead w q w₁ q₁ := .of_same hw₁ hq₁
    cases stored with
    | some id =>
      refine alone_pure ?_
      exact fun _ _ => ⟨hfine₁, hahead₁⟩
    | none =>
      by_cases hblank : chainPEM.blank = true
      · show Alone _ _ _ _ (if chainPEM.blank = true then pure none else _) _ _
        rw [if_pos hblank]
        refine alone_pure ?_
        exact fun _ _ => ⟨hfine₁, hahead₁⟩
      · show Alone _ _ _ _ (if chainPEM.blank = true then pure none else _) _ _
        rw [if_neg hblank]
        refine alone_ofExcept_bind ?_ fun _ _ _ h => nomatch h
        intro chain _
        refine Alone.bind (importAnchors_inOrder s actor chain.reverse hfine₁) ?_
          fun _ _ _ _ _ h => nomatch h
        intro w₂ q₂ a h₂
        obtain ⟨hfine₂, hahead₂⟩ := h₂ a rfl
        refine Alone.mono ?_ (reading_alone (findIssuerID_uses cert) hfine₂)
        intro w' q' r h _ _
        exact ⟨h.2.2, (hahead₁.trans hahead₂).trans (.of_same h.1 h.2.1)⟩

/-- **ImportCA** asks in order. -/
theorem importCA_inOrder (i : Ca.ImportCAInput) (hq : Unfailed q) :
    (s.importCA i).Alone exec AnyEnv AsksInOrder (fun _ _ _ => True) w q := by
  refine alone_failIf_bind (fun _ => ?_) fun _ => trivial
  refine alone_ofExcept_bind ?_ fun _ _ => trivial
  rintro ⟨cert, chainPEM⟩ _
  refine reading_bind (validateNow_uses cert) hq ?_ fun _ _ _ => trivial
  intro w₁ q₁ _ _ _ hfine₁
  refine reading_bind ((ca_uses trivial).mapResult _).attempt hfine₁ ?_ fun _ _ _ => trivial
  intro w₂ q₂ existing _ _ hfine₂
  refine alone_ofExcept_bind ?_ fun _ _ => trivial
  intro _ _
  refine alone_ofExcept_bind ?_ fun _ _ => trivial
  intro key _
  refine Alone.bind (linkIssuer_inOrder s cert chainPEM i.actor hfine₂) ?_ fun _ _ _ _ => trivial
  intro w₃ q₃ parentID h₃
  obtain ⟨hfine₃, _⟩ := h₃ parentID rfl
  dsimp only
  generalize (if Go.trimSpace i.name ≠ "" then Go.trimSpace i.name
    else if cert.subject.commonName ≠ "" then cert.subject.commonName else "Imported CA") = name
  refine reading_bind (uniqueName_uses name) hfine₃ ?_ fun _ _ _ => trivial
  intro w₄ q₄ unique _ _ hfine₄
  refine reading_bind (uniqueSlug_uses name) hfine₄ ?_ fun _ _ _ => trivial
  intro w₅ q₅ slug _ _ hfine₅
  refine Alone.bind (createCA_inOrder _ hfine₅) ?_ fun _ _ _ _ => trivial
  intro w₆ q₆ saved h₆
  obtain ⟨hfine₆, _⟩ := h₆.1 saved rfl
  have hwrite := h₆.2 saved rfl
  refine alone_failIf_bind (fun _ => ?_) fun _ => trivial
  refine Alone.bind (m := fun _ _ _ => True) ?_ ?_ fun _ _ _ _ => trivial
  · unfold Ca.makeDefaultIf
    by_cases hwanted : i.makeDefault = true
    · rw [if_pos hwanted]
      refine Alone.bind (setDefaultCA_inOrder saved.id hfine₆ hwrite) ?_ fun _ _ _ _ => trivial
      exact fun _ _ _ _ => alone_pure trivial
    · rw [if_neg hwanted]
      exact alone_pure trivial
  · intro w₇ q₇ saved' _
    exact reading_any ((audit_uses s _ _ _ _).bind fun _ => uses_pure saved')

/-- **CompleteSubordinate** asks in order, and completes a row that waits. -/
theorem completeSubordinate_inOrder (i : Ca.CompleteSubordinateInput) (hq : Unfailed q) :
    (s.completeSubordinate i).Alone exec AnyEnv AsksInOrder (fun _ _ _ => True) w q := by
  refine Alone.bind (m := fun w' q' r => Unfailed q' ∧
    ∀ c, r = .ok c → w'.ca.cas.get? c.id = some c) ?_ ?_ fun _ _ _ _ => trivial
  · refine Alone.mapResult (Alone.mono ?_ (getCAByRef_inOrder i.caRef hq))
    intro w' q' r h
    refine ⟨h.2.2.1, ?_⟩
    intro c hc
    cases r with
    | error e => cases hc
    | ok c' =>
      cases hc
      exact h.2.2.2 c rfl
  · intro w₁ q₁ row h₁
    obtain ⟨hfine₁, hfound⟩ := h₁
    have hrow := hfound row rfl
    refine alone_failIf_bind (fun hpending => ?_) fun _ => trivial
    refine alone_failIf_bind (fun _ => ?_) fun _ => trivial
    refine alone_ofExcept_bind ?_ fun _ _ => trivial
    rintro ⟨cert, chainPEM⟩ _
    refine reading_bind (validateNow_uses cert) hfine₁ ?_ fun _ _ _ => trivial
    intro w₂ q₂ _ hw₂ _ hfine₂
    refine alone_ofExcept_bind ?_ fun _ _ => trivial
    intro key _
    refine alone_ofExcept_bind ?_ fun _ _ => trivial
    intro _ _
    refine Alone.bind (linkIssuer_inOrder s cert chainPEM i.actor hfine₂) ?_
      fun _ _ _ _ => trivial
    intro w₃ q₃ parentID h₃
    obtain ⟨hfine₃, hahead₃⟩ := h₃ parentID rfl
    have hrow₃ : w₃.ca.cas.get? row.id = some row := by
      refine hahead₃.rows row.id row ?_
      rw [hw₂]
      exact hrow
    refine Alone.bind (completeCA_inOrder hfine₃ rfl hrow₃ (not_not.mp hpending)) ?_
      fun _ _ _ _ => trivial
    intro w₄ q₄ a h₄
    obtain ⟨hfine₄, hwrite₄⟩ := h₄ a rfl
    have hrest (w' : World) (q' : Trace sig) : (do
        s.audit i.actor "ca.completed" row.name ("serial=" ++ Pki.serialHex cert.serialNumber ++
          " issuer=" ++ Go.quote (Pki.describe cert).issuer ++ " valid_until=" ++
          cert.notAfter.date)
        getCA row.id).Alone exec AnyEnv AsksInOrder (fun _ _ _ => True) w' q' :=
      reading_any ((audit_uses s _ _ _ _).bind fun _ => getCA_uses row.id)
    by_cases hwanted : i.makeDefault = true
    · show Alone _ _ _ _ (if i.makeDefault = true then _ else _) _ _
      rw [if_pos hwanted]
      refine Alone.bind (setDefaultCA_inOrder row.id hfine₄ hwrite₄) ?_ fun _ _ _ _ => trivial
      exact fun w' q' _ _ => hrest w' q'
    · show Alone _ _ _ _ (if i.makeDefault = true then _ else _) _ _
      rw [if_neg hwanted]
      exact hrest w₄ q₄

end Walk

/-! ## The runs -/

section Run

variable [Go.Runtime] {acme : Acme.Service} {w w' : World} {q : Trace sig}

theorem replying_inOrder {ε α : Type} {err : ε → Reply} {ok : α → Reply} {x : Handler ε α}
    (hx : x.Alone exec AnyEnv AsksInOrder (fun _ _ _ => True) w []) :
    (replying err ok x).Alone exec AnyEnv AsksInOrder (fun _ _ _ => True) w [] := by
  refine Prog.Alone.bind hx ?_
  intro w' q' r _
  cases r <;> exact trivial

omit [Go.Runtime] in
theorem unfailed_nil : Unfailed [] := fun _ h => absurd h List.not_mem_nil

attribute [local irreducible] Prog.Alone

/-- **A call** asks in order. -/
theorem serve_inOrder (r : Incoming) :
    (r.call acme).serve.Alone exec AnyEnv AsksInOrder (fun _ _ _ => True) w [] := by
  cases r with
  | importCA i => exact replying_inOrder (importCA_inOrder _ i unfailed_nil)
  | completeSubordinate i => exact replying_inOrder (completeSubordinate_inOrder _ i unfailed_nil)

/-- What a call has been answered so far. -/
def told (w : World) (c : Call) (es : List Env) : Trace sig :=
  Interleave.own 0 (alone w c es).history

/-- **One move**: nothing, or a statement asked in order and answered. -/
theorem alone_move (acme : Acme.Service) (r : Incoming) (w : World) (es : List Env) (e : Env) :
    alone w (r.call acme) (es ++ [e]) = alone w (r.call acme) es ∨
      ∃ s x, (alone w (r.call acme) es).next? 0 = some s ∧
        AsksInOrder (alone w (r.call acme) es).world (told w (r.call acme) es) s ∧
        exec e (alone w (r.call acme) es).world s =
          some (x, (alone w (r.call acme) (es ++ [e])).world) ∧
        told w (r.call acme) (es ++ [e]) = told w (r.call acme) es ++ [⟨s, x⟩] := by
  rw [alone_snoc]
  rcases Pool.step_cases exec (alone w (r.call acme) es) 0 e with hs | ⟨s, k, x, w', hget, hx, hs⟩
  · exact .inl hs
  · have hnext : (alone w (r.call acme) es).next? 0 = some s :=
      Pool.next?_eq_some.mpr ⟨k, hget⟩
    refine .inr ⟨s, x, hnext, ?_, ?_, ?_⟩
    · exact (serve_inOrder r).next (fun _ _ => trivial) hnext
    · rw [hs]
      exact hx
    · unfold told
      rw [alone_snoc, hs]
      exact Interleave.own_snoc_self _ _ _ _

/-- What is asked before the first write, or after a write that failed, leaves the authorities as
they are. -/
theorem cas_kept_inOrder {e : Env} {w₁ : World} {s : Stmt} {x : s.Ans}
    (h : exec e w s = some (x, w')) (hs : AsksInOrder w₁ q s)
    (hwrite : writesCA s = true → ¬ Unfailed q)
    (hidle : Unfailed q → ∀ y ∈ q, writesCA y.1 = false) : w'.ca.cas = w.ca.cas := by
  refine exec_ca_induction (P := fun s t t' => AsksInOrder w₁ q s →
    (writesCA s = true → ¬ Unfailed q) → t'.cas = t.cas) (fun _ _ _ _ => rfl) ?_ h hs hwrite
  intro s t _ hs hwrite
  cases s with
  | insertCA c => exact absurd hs (hwrite rfl)
  | completeCA id c => exact absurd hs.1 (hwrite rfl)
  | setDefaultCA id =>
    obtain ⟨hfine, y, hy, hwrites⟩ := hs
    rw [hidle hfine y hy] at hwrites
    cases hwrites
  | setCAStatus id st => exact hs.elim
  | nextCRLNumber id => exact hs.elim
  | insertCertificate c =>
    simp only [CaTables.exec]
    split <;> rfl
  | _ => rfl

/-- **Before the first write** the authorities are those of the start. -/
theorem cas_of_unwritten (r : Incoming) (w : World) (es : List Env)
    (h : ∀ x ∈ told w (r.call acme) es, writesCA x.1 = false) :
    (alone w (r.call acme) es).world.ca.cas = w.ca.cas := by
  induction es using List.reverseRecOn with
  | nil => rfl
  | append_singleton es e ih =>
    rcases alone_move acme r w es e with hs | ⟨s, x, _, hasked, hx, htold⟩
    · rw [hs]
      refine ih ?_
      intro x hx
      refine h x ?_
      unfold told
      rw [hs]
      exact hx
    · rw [htold] at h
      have hidle : ∀ y ∈ told w (r.call acme) es, writesCA y.1 = false :=
        fun y hy => h y (List.mem_append_left _ hy)
      have hreads : writesCA s = false := h _ (List.mem_append_right _ (List.mem_singleton_self _))
      refine (cas_kept_inOrder hx hasked ?_ fun _ => hidle).trans (ih hidle)
      intro hwrites
      rw [hreads] at hwrites
      cases hwrites

/-! ## Writes without effect -/

/-- A statement that a constraint refuses changes nothing. -/
theorem exec_of_error {e : Env} {t : CaTables} {s : CaStmt} {err : Go.Error}
    (h : (t.exec e s).1 = .error err) : (t.exec e s).2 = t := by
  cases s with
  | insertCA c =>
    simp only [CaTables.exec] at h ⊢
    split at h
    · rfl
    · cases h
  | completeCA id c =>
    simp only [CaTables.exec] at h ⊢
    split at h
    · next hp => rw [if_pos hp]
    · cases h
  | insertCertificate c =>
    simp only [CaTables.exec] at h ⊢
    split at h
    · rfl
    · cases h
  | _ => cases h

/-- A first write that does not take effect is answered with an error. -/
theorem failedWrite_of_not_takesEffect {e : Env} {s : Stmt} {x : s.Ans}
    (h : exec e w s = some (x, w')) (hs : writesCA s = true) (heffect : ¬ TakesEffect e w s) :
    failedWrite ⟨s, x⟩ = true ∧ w'.ca.cas = w.ca.cas := by
  cases s with
  | ca s =>
    obtain ⟨hnow, hx, hw⟩ := exec_ca h
    have hrefused : (∃ err, x = .error err) ∧ w'.ca = w.ca := by
      rw [hx, hw]
      rcases e.fault.apply_cases w.ca (w.ca.exec e s) with
        ⟨_, ⟨text, herror⟩, hkept⟩ | ⟨hc, hdone, hans⟩
      · exact ⟨⟨_, herror⟩, hkept⟩
      · cases hres : (w.ca.exec e s).1 with
        | ok a => exact absurd ⟨hnow, hc, a, hres⟩ heffect
        | error err =>
          refine ⟨?_, ?_⟩
          · rcases hans with hans | ⟨text, hans⟩
            · exact ⟨err, hans.trans hres⟩
            · exact ⟨_, hans⟩
          · rw [hdone]
            exact exec_of_error hres
    obtain ⟨⟨err, rfl⟩, hca⟩ := hrefused
    refine ⟨?_, congrArg CaTables.cas hca⟩
    cases s with
    | insertCA c => rfl
    | completeCA id c => rfl
    | _ => cases hs
  | acme s => cases hs
  | audit => cases hs
  | host s => cases hs

/-- The first write of a part of a run is that of the run. -/
theorem FirstWrite.extend {c : Call} {es : List Env} (es' : List Env) {n : Nat} {e : Env}
    {s : Stmt} (h : FirstWrite w c es n e s) : FirstWrite w c (es ++ es') n e s := by
  obtain ⟨hn, _⟩ := List.getElem?_eq_some_iff.mp h.move
  have htake : (es ++ es').take n = es.take n := List.take_append_of_le_length hn.le
  refine ⟨?_, ?_, h.writes, ?_⟩
  · rw [List.getElem?_append_left hn]
    exact h.move
  · rw [htake]
    exact h.next
  · rw [htake]
    exact h.first

theorem FirstWriteFails.before {c : Call} {es es' : List Env}
    (h : FirstWriteFails w c (es ++ es')) : FirstWriteFails w c es := by
  intro n e s hfirst heffect
  refine h n e s (hfirst.extend es') ?_
  obtain ⟨hn, _⟩ := List.getElem?_eq_some_iff.mp hfirst.move
  rw [List.take_append_of_le_length hn.le]
  exact heffect

/-- **A first write without effect is the last**: the authorities stay as they are. -/
theorem cas_of_firstWriteFails (r : Incoming) (w : World) (es : List Env)
    (h : FirstWriteFails w (r.call acme) es) :
    (alone w (r.call acme) es).world.ca.cas = w.ca.cas ∧
      (Unfailed (told w (r.call acme) es) →
        ∀ x ∈ told w (r.call acme) es, writesCA x.1 = false) := by
  induction es using List.reverseRecOn with
  | nil => exact ⟨rfl, fun _ _ hx => absurd hx List.not_mem_nil⟩
  | append_singleton es e ih =>
    obtain ⟨hcas, hidle⟩ := ih h.before
    rcases alone_move acme r w es e with hs | ⟨s, x, hnext, hasked, hx, htold⟩
    · unfold told at hidle ⊢
      rw [hs]
      exact ⟨hcas, hidle⟩
    · rw [htold]
      by_cases hfirst : writesCA s = true ∧ Unfailed (told w (r.call acme) es)
      · obtain ⟨hwrites, hfine⟩ := hfirst
        have heffect : ¬ TakesEffect e (alone w (r.call acme) es).world s := by
          have hmove : FirstWrite w (r.call acme) (es ++ [e]) es.length e s := by
            refine ⟨List.getElem?_concat_length, ?_, hwrites, ?_⟩
            · rw [List.take_left]
              exact hnext
            · rw [List.take_left]
              exact hidle hfine
          have hfails := h _ e s hmove
          rw [List.take_left] at hfails
          exact hfails
        obtain ⟨hfailed, hkept⟩ := failedWrite_of_not_takesEffect hx hwrites heffect
        refine ⟨hkept.trans hcas, fun hfine' => ?_⟩
        have := hfine' ⟨s, x⟩ (List.mem_append_right _ (List.mem_singleton_self _))
        rw [hfailed] at this
        cases this
      · have hwrite : writesCA s = true → ¬ Unfailed (told w (r.call acme) es) :=
          fun hwrites hfine => hfirst ⟨hwrites, hfine⟩
        refine ⟨(cas_kept_inOrder hx hasked hwrite hidle).trans hcas, fun hfine y hy => ?_⟩
        have hfine₀ : Unfailed (told w (r.call acme) es) :=
          fun z hz => hfine z (List.mem_append_left _ hz)
        rcases List.mem_append.mp hy with hy | hy
        · exact hidle hfine₀ y hy
        · rw [List.mem_singleton.mp hy]
          exact Bool.eq_false_iff.mpr fun hwrites => hwrite hwrites hfine₀

/-! ## Writes that take effect -/

/-- An authority is new, or one that waited is active. -/
def Changed (w w' : World) : Prop :=
  ∃ i c', w'.ca.cas.get? i = some c' ∧ (w.ca.cas.get? i = none ∨
    c'.status = .active ∧ ∃ c, w.ca.cas.get? i = some c ∧ c.status = .pending)

omit [Go.Runtime] in
/-- A database with a change is another one. -/
theorem Changed.ne (h : Changed w w') : w'.ca.cas.rows ≠ w.ca.cas.rows := by
  intro heq
  have hget (i : Nat) : w'.ca.cas.get? i = w.ca.cas.get? i := by
    unfold Table.get?
    rw [heq]
  obtain ⟨i, c', hc', hnew | ⟨hactive, c, hc, hpending⟩⟩ := h
  · rw [hget, hnew] at hc'
    cases hc'
  · rw [hget, hc] at hc'
    cases hc'
    rw [hpending] at hactive
    cases hactive

/-- **A change stays**, whatever the call asks next. -/
theorem Changed.step {e : Env} {w₀ : World} {s : Stmt} {x : s.Ans} (hchanged : Changed w₀ w)
    (h : exec e w s = some (x, w')) (hs : AsksInOrder w q s) : Changed w₀ w' := by
  obtain ⟨i, c, hc, hrow⟩ := hchanged
  have hstep := authority_step h i
  rw [hc] at hstep
  generalize hc' : w'.ca.cas.get? i = r' at hstep
  cases hstep with
  | same => exact ⟨i, c, hc', hrow⟩
  | marked id => exact ⟨i, _, hc', hrow⟩
  | status st => exact hs.elim
  | numbered => exact hs.elim
  | completed d =>
    refine ⟨i, _, hc', ?_⟩
    rcases hrow with hnew | ⟨_, hwaited⟩
    · exact .inl hnew
    · exact .inr ⟨hs.2.1, hwaited⟩

/-- A write that takes effect is a change. -/
theorem changed_of_takesEffect {e : Env} {s : Stmt} {x : s.Ans}
    (h : exec e w s = some (x, w')) (hs : AsksInOrder w q s) (hwrites : writesCA s = true)
    (heffect : TakesEffect e w s) : Changed w w' := by
  cases s with
  | ca s =>
    obtain ⟨_, hc, a, ha⟩ := heffect
    have hca : w'.ca = (w.ca.exec e s).2 := by
      obtain ⟨_, _, hw⟩ := exec_ca h
      rw [hw, Fault.apply_commits hc]
    cases s with
    | insertCA c =>
      refine ⟨w.ca.cas.seq + 1, { c with id := w.ca.cas.seq + 1 }, ?_,
        .inl (Table.get?_eq_none_of_lt (Nat.lt_succ_self _))⟩
      rw [hca]
      simp only [CaTables.exec] at ha ⊢
      split at ha
      · cases ha
      · rw [Table.get?_insert, if_pos rfl]
    | completeCA id c =>
      obtain ⟨_, hactive, r, hr, hpending⟩ := hs
      refine ⟨id, r.completed c, ?_, .inr ⟨hactive, r, hr, hpending⟩⟩
      rw [hca]
      simp only [CaTables.exec] at ha ⊢
      split at ha
      · cases ha
      · next hp =>
        rw [if_neg hp]
        have hrow := Table.get?_update_self w.ca.cas (p := (·.id == id))
          (f := fun r => r.completed c) (fun _ => rfl) fun _ hk => beq_iff_eq.mpr hk
        rw [hr] at hrow
        exact hrow
    | _ => cases hwrites
  | acme s => cases hwrites
  | audit => cases hwrites
  | host s => cases hwrites

/-- A statement that takes effect is answered. -/
theorem TakesEffect.answered {e : Env} {s : Stmt} (h : TakesEffect e w s) :
    ∃ x w', exec e w s = some (x, w') := by
  cases s with
  | ca s =>
    unfold exec
    rw [if_pos h.1]
    exact ⟨_, _, rfl⟩
  | acme s => exact h.elim
  | audit => exact h.elim
  | host s => exact h.elim

/-- **A first write that takes effect** leaves a change behind, wherever the call ends. -/
theorem changed_of_firstWrite {r : Incoming} {es : List Env} {n : Nat} {e : Env} {s : Stmt}
    (h : FirstWrite w (r.call acme) es n e s)
    (heffect : TakesEffect e (alone w (r.call acme) (es.take n)).world s) :
    Changed w (alone w (r.call acme) es).world := by
  induction es using List.reverseRecOn with
  | nil => cases h.move
  | append_singleton es e' ih =>
    obtain ⟨hn, hget⟩ := List.getElem?_eq_some_iff.mp h.move
    rcases Nat.lt_succ_iff_lt_or_eq.mp (List.length_append ▸ hn) with hlt | rfl
    · have htake : (es ++ [e']).take n = es.take n := List.take_append_of_le_length hlt.le
      have hfirst : FirstWrite w (r.call acme) es n e s := by
        refine ⟨?_, ?_, h.writes, ?_⟩
        · rw [← h.move, List.getElem?_append_left hlt]
        · rw [← htake]
          exact h.next
        · rw [← htake]
          exact h.first
      rw [htake] at heffect
      rcases alone_move acme r w es e' with hs | ⟨s', x, _, hasked, hx, _⟩
      · rw [hs]
        exact ih hfirst heffect
      · exact (ih hfirst heffect).step hx hasked
    · have hmove := h.move
      have hnext := h.next
      have hidle := h.first
      rw [List.getElem?_concat_length, Option.some.injEq] at hmove
      rw [List.take_left] at hnext hidle heffect
      subst hmove
      have hcas := cas_of_unwritten r w es hidle
      have hasked := (serve_inOrder r).next (fun _ _ => trivial) hnext
      obtain ⟨k, hget⟩ := Pool.next?_eq_some.mp hnext
      obtain ⟨x, w₁, hx⟩ := heffect.answered
      rw [alone_snoc, Pool.step_of_ask hget hx]
      obtain ⟨i, c', hc', hrow⟩ := changed_of_takesEffect hx hasked h.writes heffect
      rw [hcas] at hrow
      exact ⟨i, c', hc', hrow⟩

/-! ## Refusals -/

/-- A statement that the connection carries through answers what it comes to. -/
theorem answer_of_fault_none {e : Env} {s : CaStmt} {x : Except Go.Error s.Res}
    (h : exec e w (.ca s) = some (x, w')) (hfault : e.fault = .none) : x = (w.ca.exec e s).1 := by
  obtain ⟨_, hx, _⟩ := exec_ca h
  rw [hx, hfault]
  rfl

/-- Where the connection fails, so does the statement. -/
theorem error_of_fault {e : Env} {s : CaStmt} {x : Except Go.Error s.Res}
    (h : exec e w (.ca s) = some (x, w')) (hfault : e.fault ≠ .none) : ∃ err, x = .error err := by
  obtain ⟨_, hx, _⟩ := exec_ca h
  rw [hx]
  cases hf : e.fault with
  | none => exact absurd hf hfault
  | lost text => exact ⟨_, rfl⟩
  | late text => exact ⟨_, rfl⟩

/-- **What stops an import** is refused, and what is refused stops it. -/
theorem stopped_iff {e : Env} {s : Stmt} {x : s.Ans} (h : exec e w s = some (x, w')) :
    stopped ⟨s, x⟩ = true ↔ Refused e w s := by
  have hpasses {s : Stmt} {x : s.Ans} (hs : stopped ⟨s, x⟩ = false) : ¬ stopped ⟨s, x⟩ = true :=
    Bool.eq_false_iff.mp hs
  cases s with
  | acme s => exact iff_of_false (hpasses rfl) id
  | audit => exact iff_of_false (hpasses rfl) id
  | host s => exact iff_of_false (hpasses rfl) id
  | ca s =>
    cases s with
    | insertCA c =>
      by_cases hfault : e.fault = .none
      · have hx := answer_of_fault_none h hfault
        subst hx
        simp only [Refused, hfault, ne_eq, not_true_eq_false, false_or, CaTables.exec]
        cases hc : w.ca.caConflict c with
        | none => exact iff_of_false (hpasses rfl) (not_not_intro rfl)
        | some text => exact iff_of_true rfl (Option.some_ne_none text)
      · obtain ⟨err, rfl⟩ := error_of_fault h hfault
        exact iff_of_true rfl (.inl hfault)
    | completeCA id c =>
      by_cases hfault : e.fault = .none
      · have hx := answer_of_fault_none h hfault
        subst hx
        simp only [Refused, hfault, ne_eq, not_true_eq_false, false_or, CaTables.exec]
        by_cases hparent : c.parentID.any (fun p => (w.ca.cas.get? p).isNone) = true
        · rw [if_pos hparent]
          obtain ⟨p, hp, hnone⟩ := (Option.any_eq_true _ _).mp hparent
          exact iff_of_true rfl (.inr ⟨p, hp, Option.isNone_iff_eq_none.mp hnone⟩)
        · rw [if_neg hparent]
          have hthere : ¬ ∃ p, c.parentID = some p ∧ w.ca.cas.get? p = none := by
            rintro ⟨p, hp, hnone⟩
            rw [hp, Option.any_some, hnone] at hparent
            exact hparent rfl
          rw [or_iff_left hthere, ← Table.count_key_eq_zero]
          dsimp only
          cases w.ca.cas.count (·.id == id) with
          | zero => exact iff_of_true rfl rfl
          | succ k => exact iff_of_false (hpasses rfl) (Nat.succ_ne_zero k)
      · obtain ⟨err, rfl⟩ := error_of_fault h hfault
        exact iff_of_true rfl (.inl hfault)
    | selectCA id =>
      by_cases hfault : e.fault = .none
      · have hx := answer_of_fault_none h hfault
        subst hx
        simp only [Refused, hfault, ne_eq, not_true_eq_false, false_or, CaTables.exec]
        cases hc : w.ca.cas.get? id with
        | none => exact iff_of_true rfl rfl
        | some c => exact iff_of_false (hpasses rfl) (Option.some_ne_none c)
      · obtain ⟨err, rfl⟩ := error_of_fault h hfault
        exact iff_of_true rfl (.inl hfault)
    | setDefaultCA id =>
      by_cases hfault : e.fault = .none
      · have hx := answer_of_fault_none h hfault
        subst hx
        exact iff_of_false (hpasses rfl) (not_not_intro hfault)
      · obtain ⟨err, rfl⟩ := error_of_fault h hfault
        exact iff_of_true rfl hfault
    | _ => exact iff_of_false (hpasses rfl) id

/-! ## The end of a call -/

/-- The moves of a call that runs alone. -/
theorem alone_take (w : World) (c : Call) (es : List Env) (i : Nat) :
    (serving w [c]).upto exec (Pool.solo es) i = alone w c (es.take i) := by
  unfold Pool.upto alone served Pool.solo
  rw [List.map_take]

theorem alone_length (w : World) (c : Call) (es : List Env) :
    (serving w [c]).upto exec (Pool.solo es) es.length = alone w c es := by
  rw [alone_take, List.take_length]

/-- What a call asks under an environment that admits it. -/
theorem AsksAt.asked {c : Call} {es : List Env} {n : Nat} {e : Env} {s : Stmt}
    (h : AsksAt w c es n e s) {x : s.Ans}
    (hx : exec e (alone w c (es.take n)).world s = some (x, w')) :
    Pool.AskedAt exec (serving w [c]) (Pool.solo es) n 0 e s x := by
  have hmove : (Pool.solo es)[n]? = some (0, e) := by
    rw [Pool.solo, List.getElem?_map, h.move, Option.map_some]
  rw [← alone_take] at hx
  refine .of_next hmove ?_ hx
  rw [alone_take]
  exact h.next

/-- What a call asks is among what it has been told. -/
theorem AsksAt.told {c : Call} {es : List Env} {n : Nat} {e : Env} {s : Stmt}
    (h : AsksAt w c es n e s) {x : s.Ans}
    (hx : exec e (alone w c (es.take n)).world s = some (x, w')) : ⟨s, x⟩ ∈ told w c es := by
  have hmem := (h.asked hx).mem_own (List.getElem?_eq_some_iff.mp h.move).1
  rw [alone_length] at hmem
  exact hmem

/-- What a call has been told it has asked, and has been told from then on. -/
theorem asksAt_of_told {c : Call} {es : List Env} {s : Stmt} {x : s.Ans}
    (h : ⟨s, x⟩ ∈ told w c es) : ∃ m e w', AsksAt w c es m e s ∧
      exec e (alone w c (es.take m)).world s = some (x, w') ∧
      ∀ n, m < n → ⟨s, x⟩ ∈ told w c (es.take n) := by
  have hlen : es.length ≤ (Pool.solo es).length := (List.length_map _).ge
  unfold told at h
  rw [← alone_length] at h
  obtain ⟨m, e, _, hasked⟩ := Pool.history_origin hlen rfl (Interleave.mem_own.mp h)
  have hmove := hasked.move
  have hnext := hasked.next
  have hexec := hasked.exec
  rw [alone_take] at hnext hexec
  rw [Pool.solo, List.getElem?_map] at hmove
  obtain ⟨e', he', heq⟩ := Option.map_eq_some_iff.mp hmove
  cases heq
  refine ⟨m, e, _, ⟨he', exec_now_pos hexec, hnext⟩, hexec, fun n hmn => ?_⟩
  unfold told
  rw [← alone_take]
  exact hasked.mem_own hmn

/-- What is known of a call's program is known of its run. -/
theorem alone_traced (acme : Acme.Service) (r : Incoming) (w : World) (es : List Env) :
    (alone w (r.call acme) es).Traced (fun _ => OnlySteady) (fun _ q reply =>
      (reply.isError = false → Steady q ∧ ¬ r.Keyless) ∧
        (reply.isError = true → ¬ Steady q ∨ r.Keyless ∨ Unwritten q)) := by
  refine (Pool.run_traced Pool.lawful_init (Pool.traced_init fun t p hp => ?_) _).2
  obtain ⟨c, hc, rfl⟩ := List.mem_map.mp (List.mem_of_getElem? hp)
  rw [List.mem_singleton.mp hc]
  exact serve_ends acme r

omit [Go.Runtime] in
/-- A thread that asks nothing more has a result. -/
theorem result_of_ended {σ : Pool sig Reply World} {t : Nat} (ht : t < σ.threads.length)
    (h : σ.next? t = none) : ∃ a, σ.threads[t]? = some (.pure a) := by
  rw [List.getElem?_eq_getElem ht]
  cases hp : σ.threads[t] with
  | pure a => exact ⟨a, rfl⟩
  | ask s k =>
    rw [Pool.next?_eq_some.mpr ⟨k, (List.getElem?_eq_getElem ht).trans (congrArg some hp)⟩] at h
    cases h

/-- A call that has come to its end has answered, and an error behind a write has a reason. -/
theorem answered_of_ended (r : Incoming) (es : List Env)
    (h : (alone w (r.call acme) es).next? 0 = none) :
    (¬ Failed w (r.call acme) es → Steady (told w (r.call acme) es) ∧ ¬ r.Keyless) ∧
      (Failed w (r.call acme) es → ¬ Steady (told w (r.call acme) es) ∨ r.Keyless ∨
        Unwritten (told w (r.call acme) es)) := by
  have hlen : 0 < (alone w (r.call acme) es).threads.length := by
    unfold alone served
    rw [Pool.length_threads_run]
    exact Nat.one_pos
  obtain ⟨reply, hreply⟩ := result_of_ended hlen h
  have hends := Prog.traced_pure.mp (alone_traced acme r w es 0 _ hreply)
  have hfailed : Failed w (r.call acme) es ↔ reply.isError = true := by
    unfold Failed
    rw [hreply]
    rfl
  rw [hfailed, Bool.not_eq_true]
  exact hends

/-- Nothing is asked behind what stops a call. -/
theorem steady_of_next {r : Incoming} {es : List Env} {s : Stmt}
    (h : (alone w (r.call acme) es).next? 0 = some s) : Steady (told w (r.call acme) es) :=
  Pool.next_allowed (alone_traced acme r w es) h

/-- A call that has failed has come to its end. -/
theorem Failed.ended {c : Call} {es : List Env} (h : Failed w c es) :
    (alone w c es).next? 0 = none := by
  unfold Failed at h
  unfold Pool.next?
  cases hp : (alone w c es).threads[0]? with
  | none => rfl
  | some p =>
    rw [hp] at h
    cases p with
    | pure a => rfl
    | ask s k => cases h

/-- A statement that is refused is answered. -/
theorem Refused.answered {e : Env} {s : Stmt} (h : Refused e w s) (hnow : 0 < e.now) :
    ∃ x w', exec e w s = some (x, w') := by
  cases s with
  | ca s =>
    unfold exec
    rw [if_pos hnow]
    exact ⟨_, _, rfl⟩
  | acme s => exact h.elim
  | audit => exact h.elim
  | host s => exact h.elim

/-- A write that takes effect leaves a change behind, wherever the call ends: it is the first, or
one before it took effect. -/
theorem changed_of_write {r : Incoming} {es : List Env} {n : Nat} {e : Env} {s : Stmt}
    (h : AsksAt w (r.call acme) es n e s) (hwrites : writesCA s = true)
    (heffect : TakesEffect e (alone w (r.call acme) (es.take n)).world s) :
    Changed w (alone w (r.call acme) es).world := by
  by_cases hfails : FirstWriteFails w (r.call acme) es
  · have hasked := (serve_inOrder r).next (fun _ _ => trivial) h.next
    have hfine : Unfailed (told w (r.call acme) (es.take n)) := by
      cases s with
      | ca s =>
        cases s with
        | insertCA c => exact hasked
        | completeCA id c => exact hasked.1
        | _ => cases hwrites
      | acme s => cases hwrites
      | audit => cases hwrites
      | host s => cases hwrites
    refine absurd heffect (hfails n e s ⟨h.move, h.next, hwrites, ?_⟩)
    rw [← List.take_append_drop n es] at hfails
    exact (cas_of_firstWriteFails r w (es.take n) hfails.before).2 hfine
  · unfold FirstWriteFails at hfails
    push Not at hfails
    obtain ⟨m, e', s', hfirst, htakes⟩ := hfails
    exact changed_of_firstWrite hfirst htakes

/-- **An import is atomic exactly where nothing refuses it behind a write**: from a write that takes
effect on no statement that the call asks is refused, and it does not end as a default without a
key. -/
theorem imports_atomic_iff (acme : Acme.Service) (r : Incoming) (w : World) (es : List Env) :
    Atomic w (r.call acme) es ↔ ∀ n e s, AsksAt w (r.call acme) es n e s → writesCA s = true →
      TakesEffect e (alone w (r.call acme) (es.take n)).world s → Unhindered acme r w es n := by
  constructor
  · intro hatomic n e s hasks hwrites heffect
    have hchanged := (changed_of_write hasks hwrites heffect).ne
    have hfine : ¬ Failed w (r.call acme) es := fun hfailed => hchanged (hatomic hfailed)
    refine ⟨fun hkeyless hended => ?_, fun m e' s' hnm hasks' hrefused => ?_⟩
    · exact ((answered_of_ended r es hended).1 hfine).2 hkeyless
    · obtain ⟨x, w', hx⟩ := hrefused.answered hasks'.time
      have hstopped := (stopped_iff hx).mpr hrefused
      have hsteady : Steady (told w (r.call acme) es) := by
        cases hnext : (alone w (r.call acme) es).next? 0 with
        | some s'' => exact steady_of_next hnext
        | none => exact ((answered_of_ended r es hnext).1 hfine).1
      rw [hsteady _ (hasks'.told hx)] at hstopped
      cases hstopped
  · intro h hfailed
    by_cases heffect : ∃ n e s, AsksAt w (r.call acme) es n e s ∧ writesCA s = true ∧
        TakesEffect e (alone w (r.call acme) (es.take n)).world s
    · exfalso
      obtain ⟨n, e, s, hasks, hwrites, heffect⟩ := heffect
      have hun := h n e s hasks hwrites heffect
      have hended := hfailed.ended
      obtain ⟨x, w', hx⟩ := heffect.answered
      rcases (answered_of_ended r es hended).2 hfailed with hstopped | hkeyless | hunwritten
      · -- what stopped the call was asked behind the write
        unfold Steady at hstopped
        push Not at hstopped
        obtain ⟨⟨s', x'⟩, hmem, hne⟩ := hstopped
        obtain ⟨m, e', w'', hasks', hx', hlater⟩ := asksAt_of_told hmem
        have hrefused := (stopped_iff hx').mp (Bool.not_eq_false _ ▸ hne)
        refine hun.statements m e' s' ?_ hasks' hrefused
        by_contra hlt
        exact hne (steady_of_next hasks.next _ (hlater n (not_le.mp hlt)))
      · exact hun.default hkeyless hended
      · have hwrote := hunwritten _ (hasks.told hx)
        rw [hwrites] at hwrote
        cases hwrote
    · refine congrArg Table.rows (cas_of_firstWriteFails r w es ?_).1
      intro n e s hfirst htakes
      obtain ⟨x, w', hx⟩ := htakes.answered
      exact heffect ⟨n, e, s, ⟨hfirst.move, exec_now_pos hx, hfirst.next⟩, hfirst.writes, htakes⟩

end Run

/-! ## A root without a key -/

open Samples

/-- An import of a root without its key, which cannot be the default. -/
def keylessRoot : Incoming := .importCA { certPEM := pemOf rootCert, makeDefault := true }

/-- Its certificate is stored, and then the call fails. -/
theorem keylessRoot_stays : ¬ @Atomic Go.asciiRuntime (.empty .empty)
    (keylessRoot.call replica) (calmly 20) := by
  let _ := Go.asciiRuntime
  intro hatomic
  have hfailed : Failed (.empty .empty) (keylessRoot.call replica) (calmly 20) := by
    unfold Failed
    decide +kernel
  have hlength := congrArg List.length (hatomic hfailed)
  revert hlength
  decide +kernel

end Goca
