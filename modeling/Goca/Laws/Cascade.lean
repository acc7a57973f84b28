import Goca.Laws.Forest
import Goca.Laws.Returned
import Goca.Laws.Samples

/-!
# The descent of RevokeCA

`RevokeCA` with cascade retires an authority and then, one after the other, the authorities beneath
it, each in the same way. It keeps no record of where it has been. Over a forest it needs none: it
asks for the children of each authority, and the statements that it asks on the way change no link,
so it walks the descent `Forest.descend` of the table that it started on.

- `revokeCA_alone`: what the descent retires is a part of that walk, whatever fails, and all of it
  when nothing fails.
- `authorities_forest`: the law, over every sequence of calls.
-/

set_option autoImplicit false

namespace Goca

open Goca.Store
open Interleave (Act Pool Prog Trace own)
open Interleave.Act
open Sql (Table)

/-! ## The links of a table -/

/-- The authorities with their parents. -/
def links (t : Table CA) : List (Nat × Option Nat) := t.rows.map fun c => (c.id, c.parentID)

/-- The children of an authority, in the order of the table. -/
def childrenOf (t : Table CA) (i : Nat) : List Nat :=
  (t.rows.filter fun c => c.parentID == some i).map CA.id

theorem children_table (t : Table CA) : Forest.Children (parentOf t) (childrenOf t) where
  mem := by
    intro i j
    unfold childrenOf
    rw [List.mem_map, parentOf_eq_some]
    constructor
    · rintro ⟨c, hc, rfl⟩
      obtain ⟨hmem, hparent⟩ := List.mem_filter.mp hc
      exact ⟨c, Table.get?_of_mem hmem, beq_iff_eq.mp hparent⟩
    · rintro ⟨c, hc, hparent⟩
      refine ⟨c, List.mem_filter.mpr ⟨Table.mem_of_get? hc, beq_iff_eq.mpr hparent⟩, ?_⟩
      exact Table.key_of_get? hc
  nodup := fun _ => t.distinct.sublist (List.filter_sublist.map _)

/-- The links say who is whose child. -/
theorem childrenOf_of_links {t t' : Table CA} (h : links t = links t') :
    childrenOf t = childrenOf t' := by
  have hlinks (t : Table CA) (i : Nat) :
      childrenOf t i = ((links t).filter fun l => l.2 == some i).map Prod.fst := by
    unfold childrenOf links
    rw [List.filter_map, List.map_map]
    rfl
  funext i
  rw [hlinks, hlinks, h]

/-- And who is there. -/
theorem isSome_of_links {t t' : Table CA} (h : links t = links t') (i : Nat) :
    (t.get? i).isSome = (t'.get? i).isSome := by
  have hlinks (t : Table CA) : (t.get? i).isSome = true ↔ i ∈ (links t).map Prod.fst := by
    have hids : (links t).map Prod.fst = t.rows.map CA.id := by
      unfold links
      rw [List.map_map]
      rfl
    rw [hids, List.mem_map, Option.isSome_iff_exists]
    constructor
    · rintro ⟨c, hc⟩
      exact ⟨c, Table.mem_of_get? hc, Table.key_of_get? hc⟩
    · rintro ⟨c, hc, rfl⟩
      exact ⟨c, Table.get?_of_mem hc⟩
  rw [Bool.eq_iff_iff, hlinks, hlinks, h]

/-- Over a forest the fuel for as many levels as there are authorities is enough. -/
theorem within_of_tree {w : World} (hw : Tree w.ca.cas) {depth : Nat}
    (hdepth : w.ca.cas.rows.length < depth) (id : Nat) :
    Forest.Within (parentOf w.ca.cas) depth id := by
  have hwithin := Forest.within_of_acyclic hw.acyclic (w.ca.cas.rows.map CA.id) ?_ id
  · intro j k hk
    have hlt := hwithin j k hk
    rw [List.length_map] at hlt
    omega
  · intro j hj
    obtain ⟨p, hp⟩ := Option.isSome_iff_exists.mp hj
    obtain ⟨c, hc, _⟩ := parentOf_eq_some.mp hp
    exact List.mem_map.mpr ⟨c, Table.mem_of_get? hc, Table.key_of_get? hc⟩

/-! ## Statements of the descent -/

/-- The authority that a statement retires. -/
def retires? : Stmt → Option Nat
  | .ca (.setCAStatus id .disabled) => some id
  | _ => none

/-- The authorities that a call has retired, in order. -/
def visited (q : Trace sig) : List Nat := q.filterMap fun x => retires? x.1

theorem visited_snoc (q : Trace sig) (s : Stmt) (x : s.Ans) :
    visited (q ++ [⟨s, x⟩]) = visited q ++ (retires? s).toList := by
  unfold visited
  rw [List.filterMap_append]
  cases h : retires? s <;> simp [h]

/-- A statement that retires nobody and moves no link. -/
def Quiet (s : Stmt) : Prop := Within [.revokeCertificate, .recordCARevocation] s ∧ Answerable s

theorem quiet_of_read {s : CaStmt} (h : Within [] (.ca s)) : Quiet (.ca s) := by
  refine ⟨?_, trivial⟩
  unfold Within at h ⊢
  split at h
  · cases h
  · exact trivial

/-- A quiet statement retires nobody. -/
theorem retires?_of_quiet {s : Stmt} (h : Quiet s) : retires? s = none := by
  unfold retires?
  split
  · exact absurd h.1 (by simp [Within, Stmt.effect?])
  · rfl

section Footprint

variable {ε : Type}

theorem audit_quiet (s : Ca.Service) (actor action target detail : String) :
    (s.audit actor action target detail : Handler ε Unit).Uses Quiet := by
  have hrow : (Ca.insertAudit (if actor = "" then "system" else actor) action target detail
      "").Uses Quiet := .ask ⟨trivial, trivial⟩ fun _ => .pure _
  refine hrow.attempt.bind ?_
  intro r
  exact uses_ite (fun _ => host_uses ⟨trivial, trivial⟩) fun _ => uses_pure ()

theorem revokeCertificate_quiet (id : Nat) (reason : Int) :
    (revokeCertificate id reason).Uses Quiet :=
  (ca_uses ⟨List.mem_cons_self, trivial⟩).bind fun _ => uses_failIf _ _

theorem revokeInParent_quiet (reason : Int) (c : CA) (out : Ca.RevokeCAResult) :
    (Ca.revokeInParent reason c out : Handler ε Ca.RevokeCAResult).Uses Quiet := by
  unfold Ca.revokeInParent
  split
  · exact uses_pure _
  · next p hp =>
    refine ((ca_uses (quiet_of_read (s := .selectCA p) trivial)).mapResult _).attempt.bind ?_
    intro parent
    split
    · exact uses_pure _
    · refine uses_ite (fun _ => ?_) fun _ => uses_pure _
      refine (ca_uses ⟨List.mem_cons_of_mem _ (List.mem_singleton_self _), trivial⟩).attempt.bind ?_
      exact fun _ => uses_pure _

end Footprint

section Walk

variable [Go.Runtime] {ε : Type}

/-- No statement of the descent moves a link. -/
theorem links_step {e : Env} {w w' : World} {s : Stmt} {x : s.Ans}
    (h : exec e w s = some (x, w'))
    (hs : Within [.setCAStatus, .revokeCertificate, .recordCARevocation] s) :
    links w'.ca.cas = links w.ca.cas := by
  refine exec_ca_induction
    (P := fun s t t' => Within [.setCAStatus, .revokeCertificate, .recordCARevocation] s →
      links t'.cas = links t.cas) (fun _ _ _ => rfl) ?_ h hs
  intro s t _ hs
  have hsame {p : CA → Bool} {f : CA → CA} {hf : ∀ c, (f c).id = c.id}
      (hkeep : ∀ c, (f c).parentID = c.parentID) : links (t.updateCas p f hf).cas = links t.cas := by
    show List.map _ (t.cas.rows.map _) = _
    rw [List.map_map]
    refine List.map_congr_left ?_
    intro c _
    rw [Function.comp_apply]
    split
    · rw [hf, hkeep]
    · rfl
  cases s with
  | insertCA c => simp [Within, Stmt.effect?] at hs
  | completeCA id c => simp [Within, Stmt.effect?] at hs
  | insertCertificate c => simp [Within, Stmt.effect?] at hs
  | setDefaultCA id => simp [Within, Stmt.effect?] at hs
  | nextCRLNumber id => simp [Within, Stmt.effect?] at hs
  | setCAStatus id st => exact hsame fun _ => rfl
  | _ => rfl

/-! ## The walk -/

/-- So far the call has retired these, and the links are those of the table `t`. -/
def Kept (vis : List Nat) (t : Table CA) (w : World) (q : Trace sig) : Prop :=
  visited q = vis ∧ links w.ca.cas = links t

/-- What the descent may ask. -/
def Asks (_ : World) (_ : Trace sig) (s : Stmt) : Prop := Answerable s

variable {adm : Env → Prop} {vis : List Nat} {t : Table CA} {w : World} {q : Trace sig}

theorem kept_step {e : Env} {w' : World} {s : Stmt} {x : s.Ans} (hs : Quiet s)
    (hk : Kept vis t w q) (h : exec e w s = some (x, w')) : Kept vis t w' (q ++ [⟨s, x⟩]) := by
  refine ⟨?_, ?_⟩
  · rw [visited_snoc, retires?_of_quiet hs, Option.toList_none, List.append_nil]
    exact hk.1
  · rw [links_step h ?_]
    · exact hk.2
    · have hwithin := hs.1
      unfold Within at hwithin ⊢
      split
      · next k heq =>
        rw [heq] at hwithin
        exact List.mem_cons_of_mem _ hwithin
      · exact trivial

/-- What asks quiet statements only retires nobody. -/
theorem quiet_alone {α : Type} {x : Handler ε α} (hx : x.Uses Quiet) (hk : Kept vis t w q) :
    x.Alone exec adm Asks (fun w' q' _ => Kept vis t w' q') w q :=
  Prog.Uses.alone hx (fun _ _ _ _ hs => hs.2) (fun _ _ _ _ _ _ hs hk h => kept_step hs hk h) hk

/-- One statement over the CA tables. -/
theorem ca_alone {s : CaStmt} {post : World → Trace sig → Except Go.Error s.Res → Prop}
    (h : ∀ e x w', adm e → exec e w (.ca s) = some (x, w') → post w' (q ++ [⟨.ca s, x⟩]) x) :
    (ca s).Alone exec adm Asks post w q := ⟨trivial, h⟩

/-- Without a fault a statement is answered by the table. -/
theorem answer_of_calm {e : Env} {w w' : World} {s : CaStmt} {x : Except Go.Error s.Res}
    (he : e.fault = .none) (h : exec e w (.ca s) = some (x, w')) : x = (w.ca.exec e s).1 := by
  obtain ⟨_, hx, _⟩ := exec_ca h
  rw [he] at hx
  exact hx

/-- The certificates of an authority are found, if nothing fails. -/
theorem searchCertificates_alone {calm : Prop} (hcalm : calm → ∀ e, adm e → e.fault = .none)
    (f : CertFilter) (hk : Kept vis t w q) :
    (searchCertificates f).Alone exec adm Asks
      (fun w' q' r => Kept vis t w' q' ∧ (calm → ∃ a, r = .ok a)) w q := by
  refine Alone.bind (m := fun w' q' r => Kept vis t w' q' ∧ ∃ a, r = .ok a) ?_ ?_ ?_
  · refine ⟨trivial, ?_⟩
    intro e x w' _ h
    exact ⟨kept_step ⟨trivial, trivial⟩ hk h, x, rfl⟩
  · rintro w₁ q₁ now ⟨hk₁, _⟩
    refine Alone.bind (m := fun w' q' r => Kept vis t w' q' ∧ (calm → ∃ a, r = .ok a)) ?_ ?_ ?_
    · refine ca_alone ?_
      intro e x w' he h
      refine ⟨kept_step (quiet_of_read trivial) hk₁ h, ?_⟩
      intro hc
      exact ⟨_, answer_of_calm (hcalm hc e he) h⟩
    · rintro w₂ q₂ total ⟨hk₂, _⟩
      refine Alone.bind (m := fun w' q' r => Kept vis t w' q' ∧ (calm → ∃ a, r = .ok a)) ?_ ?_ ?_
      · refine ca_alone ?_
        intro e x w' he h
        refine ⟨kept_step (quiet_of_read trivial) hk₂ h, ?_⟩
        intro hc
        exact ⟨_, answer_of_calm (hcalm hc e he) h⟩
      · rintro w₃ q₃ page ⟨hk₃, _⟩
        exact alone_pure ⟨hk₃, fun _ => ⟨_, rfl⟩⟩
      · rintro w₃ q₃ err ⟨hk₃, hok⟩
        refine ⟨hk₃, fun hc => ?_⟩
        obtain ⟨_, h⟩ := hok hc
        cases h
    · rintro w₂ q₂ err ⟨hk₂, hok⟩
      refine ⟨hk₂, fun hc => ?_⟩
      obtain ⟨_, h⟩ := hok hc
      cases h
  · rintro w₁ q₁ err ⟨_, _, h⟩
    cases h

/-- Revoking the certificates ends without an error of its own. -/
theorem revokeIssued_alone (reason : Int) (certs : List Certificate) (out : Ca.RevokeCAResult)
    (hk : Kept vis t w q) :
    (Ca.revokeIssued reason certs out : Handler ε Ca.RevokeCAResult).Alone exec adm Asks
      (fun w' q' r => Kept vis t w' q' ∧ ∃ a, r = .ok a) w q := by
  induction certs generalizing out w q with
  | nil => exact alone_pure ⟨hk, out, rfl⟩
  | cons c rest ih =>
    unfold Ca.revokeIssued
    by_cases hrevoked : c.status = .revoked
    · rw [if_pos hrevoked]
      exact ih out hk
    · rw [if_neg hrevoked]
      refine Alone.bind (m := fun w' q' r => Kept vis t w' q' ∧ ∃ a, r = .ok a) ?_ ?_ ?_
      · refine Alone.mapResult ((quiet_alone (revokeCertificate_quiet c.id reason) hk).mono ?_)
        intro w' q' r hk'
        exact ⟨hk', r, rfl⟩
      · rintro w' q' r ⟨hk', _⟩
        exact ih _ hk'
      · rintro w' q' err ⟨_, _, h⟩
        cases h

/-- What a part of the descent has retired: some of a walk, and all of it if nothing fails. -/
def Walked (calm : Prop) (vis walk : List Nat) (t : Table CA) (w : World) (q : Trace sig) : Prop :=
  ∃ part, Kept (vis ++ part) t w q ∧ part.Sublist walk ∧ (calm → part = walk)

/-- The children are retired one after the other. -/
theorem retireChildren_alone {calm : Prop} {retire : Nat → Handler Go.Error Ca.RevokeCAResult}
    {walk : Nat → List Nat} (children : List CA) (out : Ca.RevokeCAResult)
    (hretire : ∀ c ∈ children, ∀ vis w q, Kept vis t w q → (retire c.id).Alone exec adm Asks
      (fun w' q' _ => Walked calm vis (walk c.id) t w' q') w q)
    (hk : Kept vis t w q) :
    (Ca.retireChildren retire children out : Handler ε Ca.RevokeCAResult).Alone exec adm Asks
      (fun w' q' _ => Walked calm vis ((children.map CA.id).flatMap walk) t w' q') w q := by
  induction children generalizing out w q vis with
  | nil => exact alone_pure ⟨[], by rw [List.append_nil]; exact hk, List.Sublist.refl _, fun _ => rfl⟩
  | cons child rest ih =>
    unfold Ca.retireChildren
    refine Alone.bind (m := fun w' q' r => Walked calm vis (walk child.id) t w' q' ∧ ∃ a, r = .ok a)
      ?_ ?_ ?_
    · refine Alone.mapResult ((hretire child List.mem_cons_self vis w q hk).mono ?_)
      intro w' q' r hw
      exact ⟨hw, r, rfl⟩
    · rintro w₁ q₁ sub ⟨⟨part, hk₁, hsub, hall⟩, _⟩
      refine Prog.Alone.mono ?_
        (ih _ (fun c hc => hretire c (List.mem_cons_of_mem child hc)) hk₁)
      rintro w' q' r ⟨part', hk', hsub', hall'⟩
      refine ⟨part ++ part', ?_, ?_, ?_⟩
      · rw [← List.append_assoc]
        exact hk'
      · rw [List.map_cons, List.flatMap_cons]
        exact hsub.append hsub'
      · intro hc
        rw [List.map_cons, List.flatMap_cons, hall hc, hall' hc]
    · rintro w₁ q₁ err ⟨_, _, h⟩
      cases h

/-- Everything beneath an authority, after its certificates. -/
theorem revokeBeneath_alone (calm : Prop) (hcalm : calm → ∀ e, adm e → e.fault = .none)
    {retire : Nat → Handler Go.Error Ca.RevokeCAResult} {walk : Nat → List Nat} (reason : Int)
    (id : Nat) (out : Ca.RevokeCAResult)
    (hretire : ∀ c ∈ childrenOf t id, ∀ vis w q, Kept vis t w q → (retire c).Alone exec adm Asks
      (fun w' q' _ => Walked calm vis (walk c) t w' q') w q)
    (hk : Kept vis t w q) :
    (Ca.revokeBeneath reason retire id out).Alone exec adm Asks
      (fun w' q' _ => Walked calm vis ((childrenOf t id).flatMap walk) t w' q') w q := by
  have hnone {w' : World} {q' : Trace sig} (hk' : Kept vis t w' q') (hno : ¬ calm) :
      Walked calm vis ((childrenOf t id).flatMap walk) t w' q' :=
    ⟨[], by rw [List.append_nil]; exact hk', List.nil_sublist _, fun hc => absurd hc hno⟩
  refine Alone.bind (searchCertificates_alone hcalm _ hk) ?_ ?_
  · rintro w₁ q₁ ⟨certs, total⟩ ⟨hk₁, _⟩
    refine Alone.bind (revokeIssued_alone reason certs out hk₁) ?_ ?_
    · rintro w₂ q₂ out ⟨hk₂, _⟩
      refine Alone.bind (m := fun w' q' r => Kept vis t w' q' ∧ ∃ answer, r = .ok answer ∧
        (∀ cs, answer = .ok cs → cs.map CA.id = childrenOf t id) ∧
        (calm → ∃ cs, answer = .ok cs)) ?_ ?_ ?_
      · refine Alone.mapResult (ca_alone ?_)
        intro e x w' he h
        refine ⟨kept_step (quiet_of_read trivial) hk₂ h, x, rfl, ?_, ?_⟩
        · rintro cs rfl
          obtain ⟨_, hx, _⟩ := exec_ca h
          have hcs := Except.ok.inj (Fault.apply_ok hx.symm).1
          rw [← childrenOf_of_links hk₂.2, ← hcs]
          rfl
        · intro hc
          exact ⟨_, answer_of_calm (hcalm hc e he) h⟩
      · rintro w₃ q₃ answer ⟨hk₃, _, ⟨⟩, hchildren, hanswer⟩
        cases answer with
        | error e =>
          refine alone_pure (hnone hk₃ ?_)
          intro hc
          obtain ⟨_, h⟩ := hanswer hc
          cases h
        | ok children =>
          have hids := hchildren children rfl
          rw [← hids]
          refine retireChildren_alone children out ?_ hk₃
          intro c hc
          refine hretire c.id ?_
          rw [← hids]
          exact List.mem_map_of_mem hc
      · rintro w₃ q₃ err ⟨_, _, h, _⟩
        cases h
    · rintro w₂ q₂ err ⟨_, _, h⟩
      cases h
  · rintro w₁ q₁ err ⟨hk₁, hok⟩
    refine hnone hk₁ ?_
    intro hc
    obtain ⟨_, h⟩ := hok hc
    cases h

/-- **The descent of RevokeCA** retires a part of the walk beneath the authority, and all of it when
nothing fails. -/
theorem revokeCA_alone {calm : Prop} (hcalm : calm → ∀ e, adm e → e.fault = .none)
    (s : Ca.Service) (reason : Int) (actor : String) (fuel id : Nat) (cascade : Bool)
    (hfuel : Forest.Within (parentOf t) fuel id) (hk : Kept vis t w q) :
    (s.revokeCA reason actor fuel id cascade).Alone exec adm Asks
      (fun w' q' _ => Walked (calm ∧ (t.get? id).isSome = true ∧ cascade = true) vis
        (Forest.descend (childrenOf t) fuel id) t w' q') w q := by
  induction fuel generalizing id cascade vis w q with
  | zero => exact absurd (hfuel id 0 rfl) (Nat.not_lt_zero 0)
  | succ fuel ih =>
    unfold Ca.Service.revokeCA
    -- the authority itself
    refine Alone.bind (m := fun w' q' r => Kept vis t w' q' ∧
      (calm → (t.get? id).isSome = true → ∃ a, r = .ok a)) ?_ ?_ ?_
    · refine Alone.mapResult (ca_alone ?_)
      intro e x w' he h
      refine ⟨kept_step (quiet_of_read trivial) hk h, ?_⟩
      intro hc hid
      rw [← isSome_of_links hk.2] at hid
      obtain ⟨c, hget⟩ := Option.isSome_iff_exists.mp hid
      rw [answer_of_calm (hcalm hc e he) h]
      refine ⟨c, ?_⟩
      show row (.ok (w.ca.cas.get? id)) = _
      rw [hget]
      rfl
    · rintro w₁ q₁ c ⟨hk₁, _⟩
      refine Alone.bind (m := fun w' q' r => Kept (vis ++ [id]) t w' q' ∧
        (calm → ∃ a, r = .ok a)) ?_ ?_ ?_
      · refine ca_alone ?_
        intro e x w' he h
        refine ⟨⟨?_, ?_⟩, ?_⟩
        · rw [visited_snoc, hk₁.1]
          rfl
        · rw [links_step h (List.mem_cons_self : Effect.setCAStatus ∈ _)]
          exact hk₁.2
        · intro hc
          exact ⟨_, answer_of_calm (hcalm hc e he) h⟩
      · rintro w₂ q₂ _ ⟨hk₂, _⟩
        -- and everything beneath it
        have hbeneath : Act.Alone exec adm Asks (fun w' q' _ => Walked (calm ∧ cascade = true)
            (vis ++ [id]) ((childrenOf t id).flatMap (Forest.descend (childrenOf t) fuel)) t w' q')
            (if cascade = true then
              Ca.revokeBeneath reason (fun child => s.revokeCA reason actor fuel child true) id
                { ca := c }
            else pure { ca := c }) w₂ q₂ := by
          by_cases hcascade : cascade = true
          · rw [if_pos hcascade]
            refine revokeBeneath_alone (calm ∧ cascade = true) (fun hc => hcalm hc.1)
              reason id { ca := c } ?_ hk₂
            intro child hchild vis' w' q' hk'
            have hparent := ((children_table t).mem id child).mp hchild
            obtain ⟨d, hd, _⟩ := parentOf_eq_some.mp hparent
            refine Prog.Alone.mono ?_ (ih child true (hfuel.child hparent) hk')
            rintro w'' q'' r ⟨part, hpart, hsub, hall⟩
            refine ⟨part, hpart, hsub, fun hc => hall ⟨hc.1, ?_, rfl⟩⟩
            rw [hd]
            rfl
          · rw [if_neg hcascade]
            refine alone_pure ⟨[], ?_, List.nil_sublist _, fun hc => absurd hc.2 hcascade⟩
            rw [List.append_nil]
            exact hk₂
        have hstart {w' : World} {q' : Trace sig} (h : Walked (calm ∧ cascade = true) (vis ++ [id])
            ((childrenOf t id).flatMap (Forest.descend (childrenOf t) fuel)) t w' q') :
            Walked (calm ∧ (t.get? id).isSome = true ∧ cascade = true) vis
              (Forest.descend (childrenOf t) (fuel + 1) id) t w' q' := by
          obtain ⟨part, hpart, hsub, hall⟩ := h
          refine ⟨id :: part, ?_, hsub.cons_cons id, ?_⟩
          · rw [List.append_cons]
            exact hpart
          · rintro ⟨hc, _, hcascade⟩
            rw [hall ⟨hc, hcascade⟩, Forest.descend]
        refine Alone.bind hbeneath ?_ fun _ _ _ h => hstart h
        rintro w₃ q₃ out ⟨part, hpart, hsub, hall⟩
        -- what is left retires nobody
        refine Prog.Alone.mono ?_ (quiet_alone ?_ hpart)
        · intro w' q' r hk'
          exact hstart ⟨part, hk', hsub, hall⟩
        · refine (revokeInParent_quiet reason c out).bind ?_
          intro out
          exact (audit_quiet s _ _ _ _).bind fun _ => uses_pure _
      · rintro w₂ q₂ err ⟨hk₂, hok⟩
        refine ⟨[id], hk₂, (List.nil_sublist _).cons_cons id, ?_⟩
        rintro ⟨hc, _⟩
        obtain ⟨_, h⟩ := hok hc
        cases h
    · rintro w₁ q₁ err ⟨hk₁, hok⟩
      refine ⟨[], by rw [List.append_nil]; exact hk₁, List.nil_sublist _, ?_⟩
      rintro ⟨hc, hid, _⟩
      obtain ⟨_, h⟩ := hok hc hid
      cases h

/-! ## Runs -/

/-- What the descent of `RevokeCA` over the database `w` does, for the call `c` that retires the
authority `id` and everything beneath it. -/
structure CascadeSound (w : World) (c : Call) (id : Nat) : Prop where
  /-- Under every sequence of environments it comes to its end. -/
  ends : ∀ f : Nat → Env, (∀ i, 0 < (f i).now) →
    ∃ n r, (alone w c ((List.range n).map f)).threads[0]? = some (.pure r)
  /-- Whatever fails, it retires nobody twice, and nobody who is not beneath. -/
  once : ∀ es r, (alone w c es).threads[0]? = some (.pure r) →
    (visited (own 0 (alone w c es).history)).Nodup ∧
      ∀ j ∈ visited (own 0 (alone w c es).history), Forest.Beneath (parentOf w.ca.cas) j id
  /-- If nothing fails, it retires everybody beneath. -/
  all : ∀ es r, (∀ e ∈ es, e.fault = .none) → (w.ca.cas.get? id).isSome = true →
    (alone w c es).threads[0]? = some (.pure r) →
    ∀ j, Forest.Beneath (parentOf w.ca.cas) j id → j ∈ visited (own 0 (alone w c es).history)

/-- **Over a forest the descent is sound.** -/
theorem cascadeSound {w : World} (hw : Tree w.ca.cas) (replica : Acme.Service) {depth : Nat}
    (id : Nat) (reason : Int) (actor : String) (hdepth : w.ca.cas.rows.length < depth) :
    CascadeSound w ⟨replica, .revokeCA depth id reason true actor⟩ id := by
  have hwithin := within_of_tree hw hdepth id
  have halone (adm : Env → Prop) (calm : Prop) (hcalm : calm → ∀ e, adm e → e.fault = .none) :
      (Call.serve ⟨replica, .revokeCA depth id reason true actor⟩).Alone exec adm Asks
        (fun w' q' _ => Walked (calm ∧ (w.ca.cas.get? id).isSome = true ∧ true = true) []
          (Forest.descend (childrenOf w.ca.cas) depth id) w.ca.cas w' q') w [] := by
    refine Prog.Alone.bind (revokeCA_alone (t := w.ca.cas) hcalm replica.caSvc reason actor depth
      id true hwithin ⟨rfl, rfl⟩) ?_
    intro w' q' r hr
    cases r with
    | ok a => exact hr
    | error e => exact hr
  refine ⟨?_, ?_, ?_⟩
  · intro f hf
    exact Prog.Alone.finishes (halone (fun e => 0 < e.now) False False.elim)
      (fun _ _ _ _ he hs => answered he hs) hf []
  · intro es r hr
    have hresult := (halone (fun _ => True) False False.elim).result
      (fun _ _ => trivial) hr
    obtain ⟨part, ⟨hvisited, _⟩, hsub, _⟩ := hresult
    have hvisited : visited (own 0 (alone w _ es).history) = part := hvisited
    rw [hvisited]
    refine ⟨(Forest.nodup_descend hw.acyclic (children_table _) depth id).sublist hsub, ?_⟩
    intro j hj
    exact Forest.beneath_of_mem_descend (children_table _) (hsub.subset hj)
  · intro es r hes hid hr j hj
    have hresult := (halone (fun e => e.fault = .none) True
      fun _ _ he => he).result hes hr
    obtain ⟨part, ⟨hvisited, _⟩, _, hall⟩ := hresult
    have hvisited : visited (own 0 (alone w _ es).history) = part := hvisited
    rw [hvisited, hall ⟨trivial, hid, rfl⟩]
    exact (Forest.mem_descend (children_table _) hwithin).mpr hj

/-- **The forest of authorities**: after every sequence of requests that set no status, each run to
its end or cut off, whatever certificates they bring, no authority is above itself; and from there
`RevokeCA` with cascade comes to its end, retires nobody twice, and, if nothing fails, everybody
beneath the authority it was asked to retire. -/
theorem authorities_forest (creds : Table EABCred) (ops : List (Call × List Env))
    (hops : ∀ op ∈ ops, KeepsStatus op.1.request) :
    Forest.Acyclic (parentOf (after (.empty creds) ops).ca.cas) ∧
      ∀ replica depth id reason actor, (after (.empty creds) ops).ca.cas.rows.length < depth →
        CascadeSound (after (.empty creds) ops) ⟨replica, .revokeCA depth id reason true actor⟩
          id := by
  have htree : Tree (after (.empty creds) ops).ca.cas := tree_after hops tree_empty
  exact ⟨htree.acyclic, fun replica _ id reason actor hdepth =>
    cascadeSound htree replica id reason actor hdepth⟩

end Walk

/-! ## A branch -/

open Samples

/-- A root, and under it a subordinate that waits for its certificate. -/
def branch : List (Call × List Env) := [
  (⟨replica, .createCA { name := "Root", subject := { commonName := "Root" } }⟩,
    List.replicate 12 { now := 100, pick := 2 }),
  (⟨replica, .createSubordinateCSR {
      name := "Sub"
      subject := { commonName := "Sub" }
      parentRef := "Root" }⟩,
    List.replicate 12 { now := 200, pick := 3 })]

/-- The subordinate is beneath the root, and the law says what becomes of it. -/
theorem branch_forest :
    @parentOf (@after Go.asciiRuntime (.empty .empty) branch).ca.cas 2 = some 1 ∧
      @Forest.Acyclic Nat (parentOf (@after Go.asciiRuntime (.empty .empty) branch).ca.cas) := by
  have hops : ∀ op ∈ branch, KeepsStatus op.1.request := by
    intro op hop
    rcases List.mem_cons.mp hop with rfl | hop
    · decide
    · obtain rfl := List.mem_singleton.mp hop
      decide
  exact ⟨by decide +kernel, (@authorities_forest Go.asciiRuntime .empty branch hops).1⟩

end Goca
