import Goca.Laws.AuthorityTable
import Goca.Laws.Finalize

/-!
# References to authorities

`GetCAByRef` looks one text up as an id, as a slug and as a name at once, and takes whatever row
the query returns first. Names and slugs are unique by themselves, and a slug is never empty and
never has a blank, but nothing keeps the three apart: an authority can be named `2`, and the slug of
one can be the name of another.

- `unambiguous_iff`: a reference finds at most one row, and every id its own, exactly when no
  authority has the id of another as its slug or name, and none the slug of another as its name.
- `references_iff`: over whole runs, and what follows from it: an order is signed by the authority
  its credential is bound to, and a renewal by the authority of the certificate.
-/

set_option autoImplicit false

namespace Goca

open Goca.Store
open Interleave (Act Pool Prog Trace own)
open Sql (Table)

/-! ## Tables -/

/-- The rows that a trimmed reference matches. -/
def matching (t : Table CA) (ref : String) : List CA :=
  t.rows.filter fun c => c.slug == ref || c.name == ref || toString c.id == ref

/-- The rows that `GetCAByRef` can return for a reference. -/
def refMatches (t : Table CA) (ref : String) : List CA :=
  if Go.trimSpace ref = "" then
    let issuing := t.rows.filter CA.issuing
    ((issuing.find? (·.isDefault)).or issuing.head?).toList
  else matching t (Go.trimSpace ref)

/-- A reference finds at most one row, and the id of an authority finds that authority. -/
structure Unambiguous (t : Table CA) : Prop where
  single : ∀ ref, (refMatches t ref).length ≤ 1
  byID : ∀ c ∈ t.rows, refMatches t (toString c.id) = [c]

/-- Ids, slugs and names of different authorities are different texts. -/
structure Separated (t : Table CA) : Prop where
  ids : ∀ c ∈ t.rows, ∀ d ∈ t.rows, c ≠ d → toString c.id ≠ d.slug ∧ toString c.id ≠ d.name
  names : ∀ c ∈ t.rows, ∀ d ∈ t.rows, c ≠ d → c.name ≠ d.slug

/-- What the constraints of the table and the making of slugs give. -/
structure Labelled (t : Table CA) : Prop where
  names : ∀ c ∈ t.rows, ∀ d ∈ t.rows, c.name = d.name → c = d
  slugs : ∀ c ∈ t.rows, ∀ d ∈ t.rows, c.slug = d.slug → c = d
  text : ∀ c ∈ t.rows, IsSlug c.slug

theorem mem_matching {t : Table CA} {ref : String} {c : CA} : c ∈ matching t ref ↔
    c ∈ t.rows ∧ (c.slug = ref ∨ c.name = ref ∨ toString c.id = ref) := by
  simp only [matching, List.mem_filter, Bool.or_eq_true, beq_iff_eq, or_assoc]

/-- A slug has no blank at its ends, or anywhere. -/
theorem trimSpace_slug {s : String} (h : IsSlug s) : Go.trimSpace s = s := by
  refine Go.trimSpace_eq_self ?_
  intro c hc
  rcases h.2 c hc with hrune | rfl
  · refine Go.isSpace_of_visible ?_
    simp only [Ca.isSlugRune, Bool.or_eq_true, Bool.and_eq_true, decide_eq_true_eq, Char.le_def,
      UInt32.le_iff_toNat_le] at hrune
    rcases hrune with ⟨hlow, hhigh⟩ | ⟨hlow, hhigh⟩
    · exact ⟨Nat.le_trans (by decide) hlow, Nat.le_trans hhigh (by decide)⟩
    · exact ⟨Nat.le_trans (by decide) hlow, Nat.le_trans hhigh (by decide)⟩
  · exact Go.isSpace_of_visible (by decide)

theorem refMatches_slug {t : Table CA} {s : String} (h : IsSlug s) :
    refMatches t s = matching t s := by
  unfold refMatches
  rw [trimSpace_slug h, if_neg h.1]

theorem refMatches_toString (t : Table CA) (n : Nat) :
    refMatches t (toString n) = matching t (toString n) := by
  unfold refMatches
  rw [Go.trimSpace_toString, if_neg (Go.toString_ne_empty n)]

/-- A list with at most one member is that member. -/
theorem eq_singleton_of_mem {α : Type} {l : List α} (h : l.length ≤ 1) {a : α} (ha : a ∈ l) :
    l = [a] := by
  match l, h with
  | [c], _ => rw [List.mem_singleton.mp ha]

/-- Two rows among at most one are one row. -/
theorem eq_of_length_le_one {α : Type} {l : List α} (h : l.length ≤ 1) {a b : α} (ha : a ∈ l)
    (hb : b ∈ l) : a = b :=
  List.mem_singleton.mp (eq_singleton_of_mem h hb ▸ ha)

/-- A list without repetition all of whose members are one. -/
theorem length_le_one_of_eq {α : Type} {l : List α} (hn : l.Nodup)
    (h : ∀ a ∈ l, ∀ b ∈ l, a = b) : l.length ≤ 1 := by
  match l with
  | [] => exact Nat.zero_le 1
  | [a] => exact Nat.le_refl 1
  | a :: b :: l =>
    have hab := h a List.mem_cons_self b (List.mem_cons_of_mem a List.mem_cons_self)
    exact absurd (hab ▸ List.mem_cons_self) (List.nodup_cons.mp hn).1

/-- In a separated table a trimmed reference matches one row at most. -/
theorem matching_unique {t : Table CA} (hl : Labelled t) (hs : Separated t) {ref : String}
    {c d : CA} (hc : c ∈ matching t ref) (hd : d ∈ matching t ref) : c = d := by
  rw [mem_matching] at hc hd
  obtain ⟨hct, hc⟩ := hc
  obtain ⟨hdt, hd⟩ := hd
  by_contra hne
  have hid := hs.ids c hct d hdt hne
  have hid' := hs.ids d hdt c hct (Ne.symm hne)
  have hname := hs.names c hct d hdt hne
  have hname' := hs.names d hdt c hct (Ne.symm hne)
  rcases hc with hc | hc | hc <;> rcases hd with hd | hd | hd
  · exact hne (hl.slugs c hct d hdt (hc.trans hd.symm))
  · exact hname' (hd.trans hc.symm)
  · exact hid'.1 (hd.trans hc.symm)
  · exact hname (hc.trans hd.symm)
  · exact hne (hl.names c hct d hdt (hc.trans hd.symm))
  · exact hid'.2 (hd.trans hc.symm)
  · exact hid.1 (hc.trans hd.symm)
  · exact hid.2 (hc.trans hd.symm)
  · exact hne (Table.eq_of_key_eq hct hdt (Go.toString_inj.mp (hc.trans hd.symm)))

/-- **References**: at most one row for a reference, and every id its own row, is the same as ids,
slugs and names apart. -/
theorem unambiguous_iff {t : Table CA} (hl : Labelled t) : Unambiguous t ↔ Separated t := by
  constructor
  · intro h
    have hid (c : CA) (hc : c ∈ t.rows) (d : CA) (hd : d ∈ t.rows) (hne : c ≠ d) :
        d ∉ matching t (toString c.id) := by
      intro hmem
      rw [← refMatches_toString, h.byID c hc] at hmem
      exact hne (List.mem_singleton.mp hmem).symm
    refine ⟨?_, ?_⟩
    · intro c hc d hd hne
      refine ⟨?_, ?_⟩
      · intro heq
        exact hid c hc d hd hne (mem_matching.mpr ⟨hd, .inl heq.symm⟩)
      · intro heq
        exact hid c hc d hd hne (mem_matching.mpr ⟨hd, .inr (.inl heq.symm)⟩)
    · intro c hc d hd hne heq
      have hone := h.single d.slug
      rw [refMatches_slug (hl.text d hd)] at hone
      exact hne (eq_of_length_le_one hone (mem_matching.mpr ⟨hc, .inr (.inl heq)⟩)
        (mem_matching.mpr ⟨hd, .inl rfl⟩))
  · intro h
    have hnodup : ∀ ref, (matching t ref).Nodup := fun ref =>
      (List.Nodup.of_map _ t.distinct).sublist List.filter_sublist
    have hone (ref : String) : (matching t ref).length ≤ 1 :=
      length_le_one_of_eq (hnodup ref) fun c hc d hd => matching_unique hl h hc hd
    refine ⟨?_, ?_⟩
    · intro ref
      unfold refMatches
      by_cases href : Go.trimSpace ref = ""
      · rw [if_pos href]
        dsimp only
        generalize Option.or _ _ = r
        cases r with
        | none => exact Nat.zero_le 1
        | some c => exact Nat.le_refl 1
      · rw [if_neg href]
        exact hone _
    · intro c hc
      rw [refMatches_toString]
      exact eq_singleton_of_mem (hone _) (mem_matching.mpr ⟨hc, .inr (.inr rfl)⟩)

/-- The row that was found under the number of an authority that is there is its row. -/
theorem get?_of_found {t : Table CA} (hl : Labelled t) (hs : Separated t) {k : Nat} {row : CA}
    (hk : (t.get? k).isSome = true) (hrow : row ∈ matching t (toString k)) :
    t.get? k = some row := by
  obtain ⟨c, hc⟩ := Option.isSome_iff_exists.mp hk
  obtain ⟨hmem, hid⟩ := Table.get?_eq_some_iff.mp hc
  have hself : c ∈ matching t (toString k) :=
    mem_matching.mpr ⟨hmem, .inr (.inr (congrArg toString hid))⟩
  rw [hc, matching_unique hl hs hself hrow]

/-! ## One statement -/

section Step

variable {e : Env} {w w' : World}

/-- After a statement a row has the id, the name and the slug of a row before it, or is new. -/
theorem label_step [Go.Runtime] {s : Stmt} {x : s.Ans} (h : exec e w s = some (x, w')) {c : CA}
    (hc : c ∈ w'.ca.cas.rows) :
    (∃ r ∈ w.ca.cas.rows, r.id = c.id ∧ r.name = c.name ∧ r.slug = c.slug) ∨
      ∃ n, s = .ca (.insertCA n) ∧ w.ca.caConflict n = none ∧ c.id = w.ca.cas.seq + 1 ∧
        c.name = n.name ∧ c.slug = n.slug := by
  have hstep := authority_step h c.id
  rw [show w'.ca.cas.get? c.id = some c from Table.get?_of_mem hc] at hstep
  cases hr : w.ca.cas.get? c.id with
  | none =>
    rw [hr] at hstep
    obtain ⟨n, hs, hconflict, hid, heq⟩ := hstep.new
    have hname := congrArg CA.name heq
    have hslug := congrArg CA.slug heq
    exact .inr ⟨n, hs, hconflict, hid, hname, hslug⟩
  | some r =>
    rw [hr] at hstep
    obtain ⟨hmem, hid⟩ := Table.get?_eq_some_iff.mp hr
    obtain ⟨hname, hslug⟩ := hstep.label
    exact .inl ⟨r, hmem, hid, hname.symm, hslug.symm⟩

/-- An inserted row takes no name and no slug that is there. -/
theorem fresh_of_conflict {t : CaTables} {n : CA} (h : t.caConflict n = none) :
    ∀ c ∈ t.cas.rows, c.name ≠ n.name ∧ c.slug ≠ n.slug := by
  intro c hc
  unfold CaTables.caConflict at h
  split at h
  · cases h
  next hname =>
    split at h
    · cases h
    next hslug =>
      refine ⟨?_, ?_⟩
      · intro heq
        exact hname (List.any_eq_true.mpr ⟨c, hc, beq_iff_eq.mpr heq⟩)
      · intro heq
        exact hslug (List.any_eq_true.mpr ⟨c, hc, beq_iff_eq.mpr heq⟩)

/-- Unique labels stay unique: of two rows with one label, none is new beside an old one. -/
theorem label_unique [Go.Runtime] {s : Stmt} {x : s.Ans} (h : exec e w s = some (x, w'))
    {label : CA → String} (hlabel : label = CA.name ∨ label = CA.slug)
    (hw : ∀ c ∈ w.ca.cas.rows, ∀ d ∈ w.ca.cas.rows, label c = label d → c = d) :
    ∀ c ∈ w'.ca.cas.rows, ∀ d ∈ w'.ca.cas.rows, label c = label d → c = d := by
  have hfresh {n c : CA} (hn : w.ca.caConflict n = none) (hc : c ∈ w.ca.cas.rows) :
      label c ≠ label n := by
    obtain ⟨hname, hslug⟩ := fresh_of_conflict hn c hc
    rcases hlabel with rfl | rfl
    · exact hname
    · exact hslug
  have hcases {c : CA} (hc : c ∈ w'.ca.cas.rows) :
      (∃ r ∈ w.ca.cas.rows, r.id = c.id ∧ label r = label c) ∨
        ∃ n, s = .ca (.insertCA n) ∧ w.ca.caConflict n = none ∧ c.id = w.ca.cas.seq + 1 ∧
          label c = label n := by
    rcases label_step h hc with ⟨r, hr, hid, hname, hslug⟩ | ⟨n, hs, hn, hid, hname, hslug⟩
    · refine .inl ⟨r, hr, hid, ?_⟩
      rcases hlabel with rfl | rfl
      · exact hname
      · exact hslug
    · refine .inr ⟨n, hs, hn, hid, ?_⟩
      rcases hlabel with rfl | rfl
      · exact hname
      · exact hslug
  intro c hc d hd heq
  refine Table.eq_of_key_eq hc hd ?_
  rcases hcases hc with ⟨r, hr, hrid, hrl⟩ | ⟨n, hs, hn, hcid, hcl⟩
  · rcases hcases hd with ⟨r', hr', hrid', hrl'⟩ | ⟨n, hs, hn, hdid, hdl⟩
    · obtain rfl := hw r hr r' hr' (hrl.trans (heq.trans hrl'.symm))
      exact hrid.symm.trans hrid'
    · exact absurd (hrl.trans (heq.trans hdl)) (hfresh hn hr)
  · rcases hcases hd with ⟨r', hr', hrid', hrl'⟩ | ⟨n', hs', hn', hdid, hdl⟩
    · exact absurd (hrl'.trans (heq.symm.trans hcl)) (hfresh hn hr')
    · exact hcid.trans hdid.symm

/-- A statement that stores only slugs keeps the labels. -/
theorem labelled_step [Go.Runtime] {s : adminSig.Stmt} {x : adminSig.Ans s}
    (h : adminExec e w s = some (x, w'))
    (hs : ∀ n, s = .inl (.ca (.insertCA n)) → IsSlug n.slug) (hw : Labelled w.ca.cas) :
    Labelled w'.ca.cas := by
  cases s with
  | inl s =>
    have hexec := exec_of_admin h
    refine ⟨label_unique hexec (.inl rfl) hw.names, label_unique hexec (.inr rfl) hw.slugs, ?_⟩
    intro c hc
    rcases label_step hexec hc with ⟨r, hr, _, _, hslug⟩ | ⟨n, rfl, _, _, _, hslug⟩
    · rw [← hslug]
      exact hw.text r hr
    · rw [hslug]
      exact hs n rfl
  | inr s =>
    refine ⟨?_, ?_, ?_⟩
    · intro c hc d hd
      exact hw.names c (mem_of_deleteExec h hc) d (mem_of_deleteExec h hd)
    · intro c hc d hd
      exact hw.slugs c (mem_of_deleteExec h hc) d (mem_of_deleteExec h hd)
    · intro c hc
      exact hw.text c (mem_of_deleteExec h hc)

/-- What never changes of the ACME rows, from one state to a later one. -/
structure RowsKept (t t' : AcmeTables) : Prop where
  creds : ∀ d, (t'.eabCreds.get? d).map EABCred.caID = (t.eabCreds.get? d).map EABCred.caID
  accounts : ∀ a r, t.accounts.get? a = some r → ∃ r', t'.accounts.get? a = some r' ∧
    r'.eabID = r.eabID
  orders : ∀ o r, t.orders.get? o = some r → ∃ r', t'.orders.get? o = some r' ∧
    r'.accountID = r.accountID

theorem RowsKept.refl (t : AcmeTables) : RowsKept t t :=
  ⟨fun _ => rfl, fun _ r h => ⟨r, h, rfl⟩, fun _ r h => ⟨r, h, rfl⟩⟩

theorem RowsKept.trans {t t' t'' : AcmeTables} (h : RowsKept t t') (h' : RowsKept t' t'') :
    RowsKept t t'' := by
  refine ⟨fun d => (h'.creds d).trans (h.creds d), ?_, ?_⟩
  · intro a r hr
    obtain ⟨r₁, hr₁, heq₁⟩ := h.accounts a r hr
    obtain ⟨r₂, hr₂, heq₂⟩ := h'.accounts a r₁ hr₁
    exact ⟨r₂, hr₂, heq₂.trans heq₁⟩
  · intro o r hr
    obtain ⟨r₁, hr₁, heq₁⟩ := h.orders o r hr
    obtain ⟨r₂, hr₂, heq₂⟩ := h'.orders o r₁ hr₁
    exact ⟨r₂, hr₂, heq₂.trans heq₁⟩

/-- Every statement keeps the rows of package acme. -/
theorem rowsKept_exec [Go.Runtime] {s : Stmt} {x : s.Ans} (h : exec e w s = some (x, w')) :
    RowsKept w.acme w'.acme := by
  refine ⟨?_, ?_, ?_⟩
  · intro d
    have hstep := slot_step h d
    generalize w.acme.eabCreds.get? d = r, w'.acme.eabCreds.get? d = r',
      w.acme.accountsOf d = n, w'.acme.accountsOf d = n' at hstep ⊢
    cases hstep <;> rfl
  · intro a r hr
    have hstep := account_step h a
    rw [hr] at hstep
    generalize w'.acme.accounts.get? a = r' at hstep
    cases hstep <;> exact ⟨_, rfl, rfl⟩
  · intro o r hr
    have hstep := order_step h o
    rw [hr] at hstep
    generalize w'.acme.orders.get? o = r' at hstep
    cases hstep <;> exact ⟨_, rfl, rfl⟩

theorem rowsKept_step [Go.Runtime] {s : adminSig.Stmt} {x : adminSig.Ans s}
    (h : adminExec e w s = some (x, w')) : RowsKept w.acme w'.acme := by
  cases s with
  | inl s =>
    have hexec := exec_of_admin h
    exact rowsKept_exec hexec
  | inr s =>
    rcases deleteExec_cases h with rfl | ⟨_, _, _, rfl⟩
    · exact .refl _
    · exact .refl _

/-! ## Intact databases -/

/-- What the constraints of the database keep at all times: the labels of the authorities, and that
the authority of a credential is there. -/
structure Intact (w : World) : Prop where
  labelled : Labelled w.ca.cas
  bound : ∀ d r k, w.acme.eabCreds.get? d = some r → r.caID = some k →
    (w.ca.cas.get? k).isSome = true

/-- A new database is intact, where no credential is bound to an authority yet. -/
theorem intact_empty {creds : Table EABCred} (h : ∀ r ∈ creds.rows, r.caID = none) :
    Intact (.empty creds) := by
  refine ⟨⟨?_, ?_, ?_⟩, ?_⟩
  · intro c hc
    cases hc
  · intro c hc
    cases hc
  · intro c hc
    cases hc
  · intro d r k hr hk
    rw [h r (Table.mem_of_get? hr)] at hk
    cases hk

/-- **One statement** keeps the database intact. -/
theorem intact_step [Go.Runtime] {q : Trace adminSig} {s : adminSig.Stmt}
    {x : adminSig.Ans s} (hs : TaskWarrant q s) (h : adminExec e w s = some (x, w'))
    (hw : Intact w) : Intact w' := by
  have hkept := rowsKept_step h
  refine ⟨labelled_step h ?_ hw.labelled, ?_⟩
  · rintro n rfl
    exact InsertWarrant.slug hs
  · intro d r' k hr' hk
    have hcred := hkept.creds d
    rw [hr', Option.map_some, hk] at hcred
    obtain ⟨r, hr, hcaID⟩ := Option.map_eq_some_iff.mp hcred.symm
    have hbound := hw.bound d r k hr hcaID
    obtain ⟨c, hc⟩ := Option.isSome_iff_exists.mp hbound
    cases s with
    | inl s =>
      have hexec := exec_of_admin h
      have hstep := authority_step hexec k
      rw [hc] at hstep
      obtain ⟨c', hc'⟩ := hstep.kept
      rw [hc']
      rfl
    | inr s =>
      cases s with
      | deleteCA id =>
        rcases deleteCA_cases h with rfl | ⟨hkeeps, rfl⟩
        · exact hbound
        · have hne : k ≠ id := by
            rintro rfl
            refine Bool.eq_false_iff.mp hkeeps ?_
            unfold World.keepsCA
            have hany : w.acme.eabCreds.rows.any (·.caID == some k) = true :=
              List.any_eq_true.mpr ⟨r, Table.mem_of_get? hr, beq_iff_eq.mpr hcaID⟩
            rw [hany, Bool.or_true, Bool.true_or]
          have hget : (w.ca.cas.delete (·.id == id)).get? k = some c := by
            rw [Table.get?_delete]
            refine ⟨hc, ?_⟩
            rw [show c.id = k from Table.key_of_get? hc]
            exact beq_eq_false_iff_ne.mpr hne
          rw [hget]
          rfl
      | deleteCertificate id =>
        rcases deleteCertificate_cases h with rfl | rfl
        · exact hbound
        · exact hbound

end Step

/-! ## What a call signs under -/

/-- A statement asks for a signature under an authority, or stores a certificate. -/
def Issuing : Stmt → Prop
  | .host (.createCertificate _ (some _) _ _) => True
  | .ca (.insertCertificate _) => True
  | _ => False

/-- A statement asks for a signature with the certificate and the key of this authority, or stores
a certificate under it. -/
def Under (row : CA) : Stmt → Prop
  | .host (.createCertificate _ (some p) _ priv) => row.certPEM = some p ∧ row.keyEnc = some priv
  | .ca (.insertCertificate c) => c.caID = row.id
  | _ => False

/-- A statement issues under the authority that was read under this reference. -/
def IssuesUnder (ref : String) (q : Trace sig) (s : Stmt) : Prop :=
  ∃ row, ReadUnder ref q row ∧ Under row s

/-- The reference of a credential: the number of its authority, or none. -/
def credentialRef (cred : EABCred) : String := (cred.caID.map toString).getD ""

/-- What issuing a certificate for an order rests on: the reference is that of the credential that
holds the order. -/
def OrderReference (orderID : Nat) (q : Trace sig) (s : Stmt) : Prop :=
  Issuing s → ∃ order cred, Saw q (.acme (.selectAcmeOrder orderID)) (.ok (some order)) ∧
    Holds order cred q ∧ IssuesUnder (credentialRef cred) q s

/-- What issuing a certificate for a renewal rests on. -/
def RenewalReference (id : Nat) (i : Ca.RenewInput) (q : Trace sig) (s : Stmt) : Prop :=
  Issuing s → ∃ i', RenewWarrant id i i' q ∧ IssuesUnder i'.caRef q s

/-- What a request rests on when it issues. -/
def ReferenceWarrant : Request → Trace sig → Stmt → Prop
  | .finalize orderID _ => OrderReference orderID
  | .renew id i => RenewalReference id i
  | _ => fun _ _ => True

theorem not_issuing_of_within {ks : List Effect} (h₁ : .signCertificate ∉ ks)
    (h₂ : .insertCertificate ∉ ks) {s : Stmt} (hs : Within ks s) : ¬ Issuing s := by
  intro hissuing
  unfold Issuing at hissuing
  split at hissuing
  · exact h₁ hs
  · exact h₂ hs
  · exact hissuing

theorem allows_orderReference {orderID : Nat} {ks : List Effect} (h₁ : .signCertificate ∉ ks)
    (h₂ : .insertCertificate ∉ ks) (q : Trace sig) : Allows ks (OrderReference orderID) q :=
  fun _ _ _ hs h => absurd h (not_issuing_of_within h₁ h₂ hs)

theorem allows_renewalReference {id : Nat} {i : Ca.RenewInput} {ks : List Effect}
    (h₁ : .signCertificate ∉ ks) (h₂ : .insertCertificate ∉ ks) (q : Trace sig) :
    Allows ks (RenewalReference id i) q :=
  fun _ _ _ hs h => absurd h (not_issuing_of_within h₁ h₂ hs)

theorem caRef_issueInput (cred : EABCred) (csr : Pki.CSR) (cn : String) (days : Int) :
    (Acme.issueInput cred csr cn days).caRef = credentialRef cred := rfl

section Served

variable [Go.Runtime]

/-- A signature of `issue` is one under the authority its request names. -/
theorem issuesUnder_of_issue {svc : Ca.Service} {i : Ca.IssueInput} {row : CA}
    {p : Pki.SignParams} {q : Trace sig} {s : Stmt} (hi : IssueWarrant svc i row p q)
    (hs : SignWarrant p q s) : IssuesUnder i.caRef q s := by
  obtain ⟨serial, t, _, _, _, rfl⟩ := hs.signature
  exact ⟨row, hi.named, hi.issuer.certificate, hi.issuer.privateKey⟩

/-- And so is the certificate that it stores. -/
theorem issuesUnder_of_record {svc : Ca.Service} {i : Ca.IssueInput} {q : Trace sig}
    {c : Certificate} (h : RecordWarrant svc i q c) :
    IssuesUnder i.caRef q (.ca (.insertCertificate c)) := by
  obtain ⟨row, p, q₁, s, cert, hq₁, hissue, _, _, hca, _⟩ := h
  exact ⟨row, hissue.named.extend hq₁, hca⟩

/-- **Finalize issues under the credential of its order.** -/
theorem finalize_orderReference (acme : Acme.Service) (orderID : Nat) (body : Acme.Body) :
    (acme.finalize orderID body).Traced (OrderReference orderID) (fun _ _ => True) [] := by
  refine finalize_traced acme orderID body
    (allows_orderReference (by decide) (by decide) _) ?_ ?_ ?_ ?_
  · intro q order csr cn _ _ hissuing
    exact False.elim hissuing
  · intro q order csr cn cred t row p s _ hfinal _ hholds _ hissue hsign _
    have hunder := issuesUnder_of_issue hissue hsign
    rw [caRef_issueInput] at hunder
    exact ⟨order, cred, hfinal.found, hholds, hunder⟩
  · intro q order csr cn cred days c _ hfinal _ hholds hrecord _
    have hunder := issuesUnder_of_record hrecord
    rw [caRef_issueInput] at hunder
    exact ⟨order, cred, hfinal.found, hholds, hunder⟩
  · intro q order csr cn n c _ _ _ _ hissuing
    exact False.elim hissuing

/-- **Renew issues under the reference it has chosen.** -/
theorem renew_renewalReference (s : Ca.Service) (id : Nat) (i : Ca.RenewInput) :
    (s.renew id i).Traced (RenewalReference id i) (fun _ _ => True) [] := by
  refine renew_traced s id i (allows_renewalReference (by decide) (by decide) _) ?_ ?_
  · intro q i' row p st _ hrenew hissue hsign _
    exact ⟨i', hrenew, issuesUnder_of_issue hissue hsign⟩
  · intro q i' c _ hrenew hrecord _
    exact ⟨i', hrenew, issuesUnder_of_record hrecord⟩

theorem serve_referenceWarrant (c : Call) :
    c.serve.Traced (ReferenceWarrant c.request) (fun _ _ => True) [] := by
  obtain ⟨acme, request⟩ := c
  cases request with
  | finalize orderID body => exact replying_traced (finalize_orderReference acme orderID body)
  | renew id i => exact replying_traced (renew_renewalReference acme.caSvc id i)
  | _ =>
    refine (Prog.traced_any _ _).mono ?_ fun _ _ _ => trivial
    intro q s _
    exact trivial

/-- The same of every task. -/
def TaskReference : Task → Trace adminSig → adminSig.Stmt → Prop
  | .call c, q, .inl s => ReferenceWarrant c.request (Prog.leftTrace q) s
  | _, _, _ => True

theorem serve_taskReference (t : Task) :
    t.serve.Traced (TaskReference t) (fun _ _ => True) [] := by
  cases t with
  | call c =>
    refine Prog.Traced.embed (q := []) ?_ ?_ (serve_referenceWarrant c)
    · intro q s hs
      exact hs
    · intro _ _ _
      exact trivial
  | deleteCA | deleteCertificate =>
    refine (Prog.traced_any _ _).mono ?_ fun _ _ _ => trivial
    intro q s _
    exact trivial

end Served

/-! ## Runs -/

section Run

variable [Go.Runtime] (w : World) (ts : List Task) (moves : Pool.Schedule Env)

/-- In every state of a run a reference finds at most one authority, and every id its own. -/
def UnambiguousThroughout : Prop :=
  ∀ i ≤ moves.length, Unambiguous (tasksUpto w ts moves i).world.ca.cas

/-- In every state of a run ids, slugs and names are apart. -/
def SeparatedThroughout : Prop :=
  ∀ i ≤ moves.length, Separated (tasksUpto w ts moves i).world.ca.cas

/-- The statement of move `m` issues under the authority with the number `k`: it signs with the
certificate and the key that the authority had when it was read, or stores a certificate under
it. -/
def IssuedBy (m k : Nat) (s : Stmt) : Prop :=
  ∃ i < m, ∃ row, (tasksUpto w ts moves i).world.ca.cas.get? k = some row ∧ Under row s

/-- Whatever is issued for an order under a credential that is bound to an authority is issued by
that authority. -/
def OrdersBound : Prop :=
  ∀ m t e s x acme orderID body, ts[t]? = some (.call ⟨acme, .finalize orderID body⟩) →
    Pool.AskedAt adminExec (tasks w ts) moves m t e (.inl s) x → Issuing s →
    ∀ order account cred k,
      (tasksUpto w ts moves m).world.acme.orders.get? orderID = some order →
      (tasksUpto w ts moves m).world.acme.accounts.get? order.accountID = some account →
      (tasksUpto w ts moves m).world.acme.eabCreds.get? account.eabID = some cred →
      cred.caID = some k → IssuedBy w ts moves m k s

/-- The authority with the number `k` is there whenever thread `t` looks a reference up. -/
def ThereWhenLookedUp (m t k : Nat) : Prop :=
  ∀ n < m, ∀ e ref x, Pool.AskedAt adminExec (tasks w ts) moves n t e
    (.inl (.ca (.selectCAByRef ref))) x →
    ((tasksUpto w ts moves n).world.ca.cas.get? k).isSome = true

/-- Whatever is issued for a renewal that names no authority is issued by the authority of the
certificate, unless that was deleted meanwhile, or was found unable to sign. -/
def RenewalsBound : Prop :=
  ∀ m t e s x acme id i, ts[t]? = some (.call ⟨acme, .renew id i⟩) →
    Pool.AskedAt adminExec (tasks w ts) moves m t e (.inl s) x → Issuing s →
    Go.trimSpace i.caRef = "" →
    ∃ j < m, ∃ old, (tasksUpto w ts moves j).world.ca.certificates.get? id = some old ∧
      (ThereWhenLookedUp w ts moves m t old.caID → IssuedBy w ts moves m old.caID s ∨
        IssuerUnable old (Prog.leftTrace (own t (tasksUpto w ts moves m).history)))

/-- References are unambiguous, and so is who issues under them. -/
structure ReferencesSound : Prop where
  unambiguous : UnambiguousThroughout w ts moves
  orders : OrdersBound w ts moves
  renewals : RenewalsBound w ts moves

variable {w ts moves}

theorem intact_upto (hw : Intact w) {i : Nat} (hi : i ≤ moves.length) :
    Intact (tasksUpto w ts moves i).world :=
  task_invariant hw (fun _ _ _ _ _ _ hs h => intact_step hs h) hi

/-- What the rows of package acme keep along a run. -/
theorem rowsKept_upto {i j : Nat} (hij : i ≤ j) (hj : j ≤ moves.length) :
    RowsKept (tasksUpto w ts moves i).world.acme (tasksUpto w ts moves j).world.acme := by
  induction j, hij using Nat.le_induction with
  | base => exact .refl _
  | succ j hij ih =>
    refine (ih (by omega)).trans ?_
    rcases Pool.upto_asked adminExec (tasks w ts) hj with hs | ⟨s, x, hasked, _⟩
    · show RowsKept _ (Pool.upto adminExec _ moves (j + 1)).world.acme
      rw [hs]
      exact .refl _
    · exact rowsKept_step hasked.exec

/-- Issuing under the number of an authority, which is there whenever it is looked up, is issuing
under that authority. -/
theorem issuedBy_of_issuesUnder (hw : Intact w) (hsep : SeparatedThroughout w ts moves)
    {m t k : Nat} (hm : m ≤ moves.length) {s : Stmt}
    (hthere : ThereWhenLookedUp w ts moves m t k)
    (h : IssuesUnder (toString k) (Prog.leftTrace (own t (tasksUpto w ts moves m).history)) s) :
    IssuedBy w ts moves m k s := by
  obtain ⟨row, hread, hunder⟩ := h
  unfold ReadUnder at hread
  rw [Go.trimSpace_toString, if_neg (Go.toString_ne_empty k)] at hread
  obtain ⟨n, e, hn, hasked⟩ := task_saw hm hread
  have hexec := exec_of_admin hasked.exec
  obtain ⟨_, hx, _⟩ := exec_ca hexec
  have hpick := Except.ok.inj (Fault.apply_ok hx.symm).1
  exact ⟨n, hn, row, get?_of_found (intact_upto hw (by omega)).labelled (hsep n (by omega))
    (hthere n hn _ _ _ hasked) (List.mem_of_getElem? hpick), hunder⟩

/-- An order is issued by the authority that its credential is bound to. -/
theorem ordersBound_of_separated (hw : Intact w) (hsep : SeparatedThroughout w ts moves) :
    OrdersBound w ts moves := by
  intro m t e s x acme orderID body ht hasked hissuing order account cred k horder haccount hcred
    hk
  have hm : m ≤ moves.length := (List.getElem?_eq_some_iff.mp hasked.move).1.le
  obtain ⟨task, htask, hwarrant⟩ := task_may serve_taskReference hasked.next
  obtain rfl := Option.some.inj (ht.symm.trans htask)
  obtain ⟨order', cred', hfound, ⟨id, account', hacc, hown, hread⟩, hunder⟩ := hwarrant hissuing
  -- what the call has read is what the state has, as far as it says who holds the order
  obtain ⟨j₁, e₁, hj₁, hask₁⟩ := task_saw hm hfound
  obtain ⟨j₂, e₂, hj₂, hask₂⟩ := task_saw hm hacc
  obtain ⟨j₃, e₃, hj₃, hask₃⟩ := task_saw hm hread
  have hget₁ := get?_of_selectAcmeOrder (exec_of_admin hask₁.exec)
  have hget₂ := get?_of_selectAcmeAccount (exec_of_admin hask₂.exec)
  have hget₃ : (tasksUpto w ts moves j₃).world.acme.eabCreds.get? account'.eabID = some cred' :=
    get?_of_selectEABCred (exec_of_admin hask₃.exec)
  obtain ⟨o, ho, howner⟩ := (rowsKept_upto hj₁.le hm).orders orderID order' hget₁
  obtain rfl := Option.some.inj (horder.symm.trans ho)
  obtain ⟨a, ha, heab⟩ := (rowsKept_upto hj₂.le hm).accounts id account' hget₂
  have hid : account'.id = id := Table.key_of_get? hget₂
  rw [howner, hown, hid] at haccount
  obtain rfl := Option.some.inj (haccount.symm.trans ha)
  have hkept := (rowsKept_upto hj₃.le hm : RowsKept (tasksUpto w ts moves j₃).world.acme
    (tasksUpto w ts moves m).world.acme).creds account'.eabID
  rw [hget₃, ← heab, hcred, Option.map_some, Option.map_some, hk] at hkept
  have hcaID : cred'.caID = some k := (Option.some.inj hkept).symm
  unfold credentialRef at hunder
  rw [hcaID] at hunder
  refine issuedBy_of_issuesUnder hw hsep hm ?_ hunder
  intro n hn _ _ _ _
  have hthen := (rowsKept_upto hn.le hm : RowsKept (tasksUpto w ts moves n).world.acme
    (tasksUpto w ts moves m).world.acme).creds account.eabID
  rw [hcred, Option.map_some, hk] at hthen
  obtain ⟨r, hr, hrk⟩ := Option.map_eq_some_iff.mp hthen.symm
  exact (intact_upto hw (by omega)).bound _ r k hr hrk

/-- A renewal is issued by the authority of the certificate. -/
theorem renewalsBound_of_separated (hw : Intact w) (hsep : SeparatedThroughout w ts moves) :
    RenewalsBound w ts moves := by
  intro m t e s x acme id i ht hasked hissuing hnone
  have hm : m ≤ moves.length := (List.getElem?_eq_some_iff.mp hasked.move).1.le
  obtain ⟨task, htask, hwarrant⟩ := task_may serve_taskReference hasked.next
  obtain rfl := Option.some.inj (ht.symm.trans htask)
  obtain ⟨i', ⟨old, hold, href⟩, hunder⟩ := hwarrant hissuing
  obtain ⟨j, e', hj, hask⟩ := task_saw hm hold
  refine ⟨j, hj, old, get?_of_selectCertificate (exec_of_admin hask.exec), ?_⟩
  intro hthere
  rcases href with ⟨hsome, _⟩ | ⟨_, hunable⟩ | ⟨issuer, hissuer, hcaRef⟩
  · exact absurd hnone hsome
  · exact .inr hunable
  · obtain ⟨n, e'', hn, hask'⟩ := task_saw hm hissuer
    have hid : issuer.id = old.caID :=
      Table.key_of_get? (get?_of_selectCA (exec_of_admin hask'.exec))
    rw [hcaRef, hid] at hunder
    exact .inl (issuedBy_of_issuesUnder hw hsep hm hthere hunder)

/-- **References to authorities**: in every run, any number of requests and deletions interleaved in
any way, references are unambiguous in every state, and orders and renewals are issued by the
authorities they belong to, exactly when in every state no authority has the number of another as
its slug or name, and none the slug of another as its name. -/
theorem references_iff (hw : Intact w) :
    ReferencesSound w ts moves ↔ SeparatedThroughout w ts moves := by
  constructor
  · intro h i hi
    exact (unambiguous_iff (intact_upto hw hi).labelled).mp (h.unambiguous i hi)
  · intro h
    refine ⟨?_, ordersBound_of_separated hw h, renewalsBound_of_separated hw h⟩
    intro i hi
    exact (unambiguous_iff (intact_upto hw hi).labelled).mpr (h i hi)

end Run

/-! ## Two authorities for one reference -/

open Samples

instance (t : Table CA) : Decidable (Separated t) := decidable_of_iff
  ((∀ c ∈ t.rows, ∀ d ∈ t.rows, c ≠ d → toString c.id ≠ d.slug ∧ toString c.id ≠ d.name) ∧
    ∀ c ∈ t.rows, ∀ d ∈ t.rows, c ≠ d → c.name ≠ d.slug)
  ⟨fun h => ⟨h.1, h.2⟩, fun h => ⟨h.ids, h.names⟩⟩

/-- Two roots, the first of which has the number of the second as its name. -/
def numberedName : List Task := [
  .call ⟨replica, .createCA { name := "2", subject := { commonName := "Two" } }⟩,
  .call ⟨replica, .createCA { name := "Root", subject := { commonName := "Root" } }⟩]

/-- The credential of the account, bound to the authority. -/
def boundCreds : Table EABCred :=
  Table.empty.insert (fun id => { cred with id, caID := some 1 }) fun _ => rfl

/-- The account with its order, under this credential. -/
def boundInstallation : World :=
  let w := orderInstallation ["n0"]
  { w with acme := { w.acme with eabCreds := boundCreds } }

/-- A second authority, the order finalized, and its certificate renewed. -/
def orderAndRenewal : List Task := [
  .call ⟨replica, .createCA { name := "Old", subject := { commonName := "Old" } }⟩,
  .call ⟨replica, .finalize 1 (finalization "n0" ["host.internal"])⟩,
  .call ⟨replica, .renew 1 {}⟩]

/-- One of them after the other, with draws of its own. -/
def oneByOne : Pool.Schedule Env :=
  (List.replicate 10 0 ++ List.replicate 24 1 ++ List.replicate 17 2).map fun t =>
    (t, { now := 100, pick := t + 2 })

theorem intact_boundInstallation : Intact boundInstallation := by
  have hrunes : "root".toList.all (fun c => Ca.isSlugRune c || c == '-') = true := by decide
  have hslug : IsSlug "root" := by
    refine ⟨by decide, fun c hc => ?_⟩
    simpa using List.all_eq_true.mp hrunes c hc
  have hcas : boundInstallation.ca.cas.rows = [root] := rfl
  refine ⟨⟨?_, ?_, ?_⟩, ?_⟩
  · intro c hc d hd _
    rw [hcas, List.mem_singleton] at hc hd
    rw [hc, hd]
  · intro c hc d hd _
    rw [hcas, List.mem_singleton] at hc hd
    rw [hc, hd]
  · intro c hc
    rw [hcas, List.mem_singleton] at hc
    rw [hc]
    exact hslug
  · intro d r k hr hk
    have hrow : r = { cred with id := 1, caID := some 1 } :=
      List.mem_singleton.mp (Table.mem_of_get? hr)
    rw [hrow] at hk
    cases hk
    rfl

/-- Under names of their own the two authorities are told apart throughout: the order and the
renewal are issued by the first. -/
theorem orderAndRenewal_sound :
    @ReferencesSound Go.asciiRuntime boundInstallation orderAndRenewal oneByOne ∧
      (@tasksUpto Go.asciiRuntime boundInstallation orderAndRenewal oneByOne
        oneByOne.length).world.ca.certificates.rows.map (·.caID) = [1, 1] := by
  let _ := Go.asciiRuntime
  have hsep : ∀ i < oneByOne.length + 1,
      Separated (tasksUpto boundInstallation orderAndRenewal oneByOne i).world.ca.cas := by
    decide +kernel
  refine ⟨(references_iff intact_boundInstallation).mpr ?_, by decide +kernel⟩
  intro i hi
  exact hsep i (Nat.lt_succ_of_le hi)

/-- A root with the name `2` is found under the number of the second root. -/
theorem numberedName_ambiguous : ¬ @ReferencesSound Go.asciiRuntime (.empty .empty) numberedName
    (inSequence 2) := by
  let _ := Go.asciiRuntime
  intro h
  have hone := (h.unambiguous _ (Nat.le_refl _)).single "2"
  have htwo : (refMatches (tasksUpto (.empty .empty) numberedName (inSequence 2)
      (inSequence 2).length).world.ca.cas "2").length = 2 := by decide +kernel
  omega

end Goca
