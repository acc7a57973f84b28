import Goca.Admin
import Goca.Laws.Issuance

/-!
# Who becomes an authority

A row of the authorities is written in two ways: it is inserted, by `CreateCA`,
`CreateSubordinateCSR` and the imports, or it is filled in, by `CompleteSubordinate`. This module
says what a call has read when it writes one. A row with a certificate hangs only under a row that
was read with a certificate; a row that waits for its certificate may hang under any row, because
nobody has verified its parent yet.

- `InsertWarrant`, `CompleteWarrant`: what an inserted and a completed row rest on.
- `serve_rowWarrant`: every call writes rows under these warrants only.
- `read_stored`: what is read of an authority is its row.
-/

set_option autoImplicit false

namespace Goca

open Goca.Store
open Goca.Pki (X509)
open Interleave (Act Prog Pool Trace)
open Interleave.Act

/-! ## Rows that were read -/

/-- The authorities in the answer to a statement. -/
def authoritiesOf : (s : Stmt) × s.Ans → List CA
  | ⟨.ca (.selectCA _), .ok c⟩ => c.toList
  | ⟨.ca (.selectCABySlug _), .ok c⟩ => c.toList
  | ⟨.ca (.selectCAByRef _), .ok c⟩ => c.toList
  | ⟨.ca .selectDefaultCA, .ok c⟩ => c.toList
  | ⟨.ca .listCAs, .ok cs⟩ => cs
  | ⟨.ca (.selectCABySubjectKeyID _), .ok c⟩ => c.toList
  | ⟨.ca (.selectCABySubject _), .ok c⟩ => c.toList
  | ⟨.ca (.selectCAByFingerprint _), .ok c⟩ => c.toList
  | ⟨.ca (.childCAs _), .ok cs⟩ => cs
  | _ => []

/-- The row of an authority was read, by whichever statement. -/
def Read (q : Trace sig) (c : CA) : Prop := ∃ x ∈ q, c ∈ authoritiesOf x

theorem Read.extend {q q' : Trace sig} {c : CA} (h : Read q c) (hq : q <+: q') : Read q' c := by
  obtain ⟨x, hx, hc⟩ := h
  exact ⟨x, hq.subset hx, hc⟩

/-- What was read under a reference, or as the default, was read. -/
theorem read_of_readCA {q : Trace sig} {c : CA} (h : ReadCA q c) : Read q c := by
  obtain ⟨x, hx, ⟨ref, rfl⟩ | rfl⟩ := h
  · exact ⟨_, hx, List.mem_singleton_self c⟩
  · exact ⟨_, hx, List.mem_singleton_self c⟩

/-- A row that was read of the authority `p`, with a certificate if one is asked for. -/
def ReadParent (q : Trace sig) (certified : Prop) (p : Nat) : Prop :=
  ∃ r, Read q r ∧ r.id = p ∧ (certified → r.certPEM.isSome = true)

theorem ReadParent.extend {q q' : Trace sig} {certified : Prop} {p : Nat}
    (h : ReadParent q certified p) (hq : q <+: q') : ReadParent q' certified p := by
  obtain ⟨r, hr, hid, hcert⟩ := h
  exact ⟨r, hr.extend hq, hid, hcert⟩

/-! ## Warrants -/

/-- What the insertion of an authority rests on: a row with a certificate names only a parent that
was read with one. -/
structure InsertWarrant (q : Trace sig) (c : CA) : Prop where
  row : AuthorityRow c
  slug : IsSlug c.slug
  parent : ∀ p, c.parentID = some p → ReadParent q (c.certPEM.isSome = true) p

/-- No authority has been completed yet. -/
def Uncompleted (q : Trace sig) : Prop := ∀ x ∈ q, ∀ id c, x.1 ≠ .ca (.completeCA id c)

/-- What the completion of an authority rests on: the row was read while it was waiting, and the
parent of its certificate was read with a certificate. -/
structure CompleteWarrant (q : Trace sig) (id : Nat) (c : CA) : Prop where
  status : c.status = .active
  certificate : c.certPEM.isSome = true
  waiting : ∃ r, Read q r ∧ r.id = id ∧ r.status = .pending
  parent : ∀ p, c.parentID = some p → ReadParent q True p
  once : Uncompleted q

/-- What writing the row of an authority rests on. -/
def RowWarrant (q : Trace sig) : Stmt → Prop
  | .ca (.insertCA c) => InsertWarrant q c
  | .ca (.completeCA id c) => CompleteWarrant q id c
  | _ => True

theorem rowWarrant_of_within {ks : List Effect} (h₁ : .insertCA ∉ ks) (h₂ : .completeCA ∉ ks)
    {q : Trace sig} {s : Stmt} (hs : Within ks s) : RowWarrant q s := by
  unfold RowWarrant
  split
  · exact absurd hs h₁
  · exact absurd hs h₂
  · exact trivial

theorem allows_rowWarrant {ks : List Effect} (h₁ : .insertCA ∉ ks) (h₂ : .completeCA ∉ ks)
    (q : Trace sig) : Allows ks RowWarrant q := fun _ _ _ hs => rowWarrant_of_within h₁ h₂ hs

/-- An insertion completes nothing. -/
theorem uncompleted_snoc {q : Trace sig} {s : Stmt} {x : s.Ans} (h : Uncompleted q)
    (hs : Within [.insertCA] s) : Uncompleted (q ++ [⟨s, x⟩]) := by
  intro y hy id c
  rcases List.mem_append.mp hy with hy | hy
  · exact h y hy id c
  · rw [List.mem_singleton.mp hy]
    rintro rfl
    cases List.mem_singleton.mp hs

/-- What a waiting row rests on, whatever marker it is stored with. -/
theorem insertWarrant_marked {q : Trace sig} {c c' : CA} (h : InsertWarrant q c)
    (hc : ∃ b, c' = { c with isDefault := b }) : InsertWarrant q c' := by
  obtain ⟨b, rfl⟩ := hc
  exact ⟨h.row, h.slug, h.parent⟩

/-! ## The handlers -/

section Handlers

variable {ε : Type} {q : Trace sig}

/-- Everything without an effect is allowed. -/
theorem reads_rowWarrant (q : Trace sig) : AllowsReads RowWarrant q :=
  allows_rowWarrant (by decide) (by decide) q

theorem marks_rowWarrant (q : Trace sig) : Allows [.setDefaultCA] RowWarrant q :=
  allows_rowWarrant (by decide) (by decide) q

/-- An authority that confirms a certificate has a certificate. -/
theorem certPEM_of_confirms {cert : X509} {c : CA} (h : Ca.confirmsIssuer cert c = true) :
    c.certPEM.isSome = true := by
  unfold Ca.confirmsIssuer at h
  cases hc : c.certPEM with
  | none =>
    rw [hc] at h
    cases h
  | some parent => rfl

/-- The candidate that a lookup confirmed was read with its certificate. -/
theorem confirmedIssuer_read {cert : X509} {found : Except Go.Error CA} {p : Nat}
    (hfound : ∀ c, found = .ok c → Read q c) (h : Ca.confirmedIssuer cert found = some p) :
    ReadParent q True p := by
  cases found with
  | error e => cases h
  | ok c =>
    unfold Ca.confirmedIssuer at h
    dsimp only at h
    by_cases hc : Ca.confirmsIssuer cert c = true
    · rw [if_pos hc] at h
      exact ⟨c, hfound c rfl, Option.some.inj h, fun _ => certPEM_of_confirms hc⟩
    · rw [if_neg hc] at h
      cases h

/-- An imported row under a confirmed parent. -/
theorem importedRecord_warranted {cert : X509} {name slug keyType : String}
    {key : Option Pki.PrivateKey} {parentID : Option Nat}
    (hslug : IsSlug slug) (h : ∀ p, parentID = some p → ReadParent q True p) :
    InsertWarrant q (Ca.importedRecord cert name slug key keyType parentID) where
  row := .inr ⟨rfl, rfl, _, rfl⟩
  slug := hslug
  parent := by
    intro p hp
    obtain ⟨r, hr, hid, hcert⟩ := h p hp
    exact ⟨r, hr, hid, fun _ => hcert trivial⟩

theorem findCABySubjectKeyID_read (ski : String) :
    (findCABySubjectKeyID ski).Traced RowWarrant (fun q' c => Read q' c) q := by
  refine traced_ite (fun _ => traced_throw) fun _ => ?_
  refine (row_traced ((reads_rowWarrant q).ca (.selectCABySubjectKeyID ski) trivial)).mono ?_
  intro q' c hc
  exact ⟨_, hc, List.mem_singleton_self c⟩

theorem findCABySubject_read (subject : String) :
    (findCABySubject subject).Traced RowWarrant (fun q' c => Read q' c) q := by
  refine (row_traced ((reads_rowWarrant q).ca (.selectCABySubject subject) trivial)).mono ?_
  intro q' c hc
  exact ⟨_, hc, List.mem_singleton_self c⟩

/-- The issuer that is found for a certificate was read with its own. -/
theorem findIssuerID_read (cert : X509) :
    (Ca.findIssuerID cert : Handler ε (Option Nat)).Traced RowWarrant
      (fun q' id => ∀ p, id = some p → ReadParent q' True p) q := by
  refine Traced.bind (Traced.attempt (findCABySubjectKeyID_read _) fun _ _ _ hr => hr) ?_
  intro q₁ byKey hq₁ hbyKey
  split
  next id hid =>
    refine traced_pure ?_
    rintro p ⟨⟩
    exact confirmedIssuer_read hbyKey hid
  next =>
    refine Traced.bind (Traced.attempt (findCABySubject_read _) fun _ _ _ hr => hr) ?_
    intro q₂ bySubject hq₂ hbySubject
    split
    next id hid =>
      refine traced_pure ?_
      rintro p ⟨⟩
      exact confirmedIssuer_read hbySubject hid
    next =>
      refine Traced.bind (Traced.attempt ((reads_rowWarrant q₂).ca .listCAs trivial)
        fun _ _ _ hr => hr) ?_
      intro q₃ all hq₃ hall
      cases all with
      | error e => exact traced_pure fun _ h => nomatch h
      | ok all =>
        refine traced_pure ?_
        intro p hp
        obtain ⟨c, hc, rfl⟩ := Option.map_eq_some_iff.mp hp
        exact ⟨c, ⟨_, hall all rfl, List.mem_of_find?_eq_some hc⟩, rfl,
          fun _ => certPEM_of_confirms (List.find?_some hc)⟩

variable [Go.Runtime]

omit [Go.Runtime] in
theorem getCAByRef_read (ref : String) :
    (getCAByRef ref).Traced RowWarrant (fun q' c => Read q' c) q :=
  (getCAByRef_saw ref (reads_rowWarrant q)).mono fun _ _ => read_of_readCA

omit [Go.Runtime] in
/-- Storing an authority under a warrant. -/
theorem createCA_warranted {c : CA} (h : InsertWarrant q c) :
    (Store.createCA c).Traced RowWarrant (fun _ _ => True) q := by
  refine createCA_traced c (reads_rowWarrant q) ?_
  intro q' c' hq' hc'
  refine insertWarrant_marked ⟨h.row, h.slug, ?_⟩ hc'
  intro p hp
  exact (h.parent p hp).extend hq'

variable (s : Ca.Service)

theorem importAnchor_warranted (actor : String) (anchor : X509) :
    (s.importAnchor actor anchor).Traced RowWarrant (fun _ _ => True) q := by
  refine ((reads_rowWarrant q).traced ((ca_uses trivial).mapResult _).attempt).bind ?_
  intro q₁ known hq₁ _
  cases known with
  | ok c => exact traced_pure trivial
  | error e =>
    refine traced_ite (fun _ => traced_pure trivial) fun _ => ?_
    refine (findIssuerID_read anchor).bind ?_
    intro q₂ parentID hq₂ hparent
    refine ((reads_rowWarrant q₂).traced (uniqueName_uses _)).bind ?_
    intro q₃ unique hq₃ _
    refine (uniqueSlug_traced _ (reads_rowWarrant q₃)).bind ?_
    intro q₄ slug hq₄ hslug
    refine (Traced.mapError (createCA_warranted ?_)).bind ?_
    · refine importedRecord_warranted hslug ?_
      intro p hp
      exact (hparent p hp).extend (hq₃.trans hq₄)
    · intro q₅ _ hq₅ _
      exact (reads_rowWarrant q₅).traced (audit_uses s _ _ _ _)

theorem importAnchors_warranted (actor : String) (anchors : List X509) :
    (s.importAnchors actor anchors).Traced RowWarrant (fun _ _ => True) q := by
  induction anchors generalizing q with
  | nil => exact traced_pure trivial
  | cons anchor rest ih => exact (importAnchor_warranted s actor anchor).bind fun _ _ _ _ => ih

/-- The issuer that a certificate is linked to was read with its certificate, whether it was stored
before or comes with the supplied chain. -/
theorem linkIssuer_warranted (cert : X509) (chainPEM : Pki.PemText) (actor : String) :
    (s.linkIssuer cert chainPEM actor).Traced RowWarrant
      (fun q' id => ∀ p, id = some p → ReadParent q' True p) q := by
  refine traced_ite (fun _ => traced_pure fun _ h => nomatch h) fun _ => ?_
  refine (findIssuerID_read cert).bind ?_
  intro q₁ stored hq₁ hstored
  cases stored with
  | some id => exact traced_pure hstored
  | none =>
    refine traced_ite (fun _ => traced_pure fun _ h => nomatch h) fun _ => ?_
    refine traced_ofExcept_eq.bind ?_
    intro q₂ chain hq₂ _
    refine (importAnchors_warranted s actor _).bind ?_
    intro q₃ _ hq₃ _
    exact findIssuerID_read cert

/-- **CreateSubordinateCSR** stores a row that waits. -/
theorem createSubordinateCSR_warranted (i : Ca.SubordinateCSRInput) :
    (s.createSubordinateCSR i).Traced RowWarrant (fun _ _ => True) q := by
  refine traced_ofExcept_eq.bind ?_
  intro q₁ _ hq₁ _
  refine traced_ofExcept_eq.bind ?_
  intro q₂ kt hq₂ _
  have hparent : (Ca.subordinateParent i.parentRef).Traced RowWarrant
      (fun q' id => ∀ p, id = some p → ReadParent q' False p) q₂ := by
    refine traced_ite (fun _ => ?_) fun _ => traced_pure fun _ h => nomatch h
    refine Traced.bind (Traced.mapError (getCAByRef_read _)) ?_
    intro q' parent _ hread
    refine traced_pure ?_
    rintro p ⟨⟩
    exact ⟨parent, hread, rfl, False.elim⟩
  refine hparent.bind ?_
  intro q₃ parentID hq₃ hparentID
  refine ((reads_rowWarrant q₃).traced (createSubordinateCSR_uses _ _)).bind ?_
  intro q₄ r hq₄ _
  refine (uniqueSlug_traced _ (reads_rowWarrant q₄)).bind ?_
  intro q₅ slug hq₅ hslug
  refine (createCA_warranted ?_).bind ?_
  · refine ⟨.inl ⟨rfl, rfl, rfl⟩, hslug, ?_⟩
    intro p hp
    obtain ⟨r, hr, hid, _⟩ := (hparentID p hp).extend (hq₄.trans hq₅)
    exact ⟨r, hr, hid, fun h => nomatch h⟩
  · intro q₆ saved hq₆ _
    exact ((reads_rowWarrant q₆).traced (audit_uses s _ _ _ _)).bind fun _ _ _ _ =>
      traced_pure trivial

/-- **ImportCA** stores rows with certificates under confirmed issuers. -/
theorem importCA_warranted (i : Ca.ImportCAInput) :
    (s.importCA i).Traced RowWarrant (fun _ _ => True) q := by
  refine traced_failIf_eq.bind ?_
  intro q₁ _ hq₁ _
  refine traced_ofExcept_eq.bind ?_
  intro q₂ lead hq₂ _
  refine ((reads_rowWarrant q₂).traced (validateNow_uses _)).bind ?_
  intro q₃ _ hq₃ _
  refine ((reads_rowWarrant q₃).traced ((ca_uses trivial).mapResult _).attempt).bind ?_
  intro q₄ existing hq₄ _
  refine traced_ofExcept_eq.bind ?_
  intro q₅ _ hq₅ _
  refine traced_ofExcept_eq.bind ?_
  intro q₆ key hq₆ _
  refine (linkIssuer_warranted s _ _ _).bind ?_
  intro q₇ parentID hq₇ hparent
  refine ((reads_rowWarrant q₇).traced (uniqueName_uses _)).bind ?_
  intro q₈ unique hq₈ _
  refine (uniqueSlug_traced _ (reads_rowWarrant q₈)).bind ?_
  intro q₉ slug hq₉ hslug
  refine (createCA_warranted ?_).bind ?_
  · refine importedRecord_warranted hslug ?_
    intro p hp
    exact (hparent p hp).extend (hq₈.trans hq₉)
  · intro q₁₀ saved hq₁₀ _
    refine traced_failIf_eq.bind ?_
    intro q₁₁ _ hq₁₁ _
    refine ((marks_rowWarrant q₁₁).traced (makeDefaultIf_uses (by decide) _ saved)).bind ?_
    intro q₁₂ saved hq₁₂ _
    exact ((reads_rowWarrant q₁₂).traced (audit_uses s _ _ _ _)).bind fun _ _ _ _ =>
      traced_pure trivial

/-- **CompleteSubordinate** fills in a row that it read while it was waiting. -/
theorem completeSubordinate_warranted (i : Ca.CompleteSubordinateInput) (hq : Uncompleted q) :
    (s.completeSubordinate i).Traced RowWarrant (fun _ _ => True) q := by
  have keeps {ε α : Type} {x : Handler ε α} {q : Trace sig} {post : Trace sig → α → Prop}
      (hx : x.Uses (Within [.insertCA])) (hq : Uncompleted q) (ht : x.Traced RowWarrant post q) :
      x.Traced RowWarrant (fun q' a => post q' a ∧ Uncompleted q') q := by
    refine (Prog.Traced.and_keeps ht hx (fun _ _ _ h hs => uncompleted_snoc h hs) hq).mono
      (fun _ _ => id) ?_
    intro q' r hr a ha
    exact ⟨hr.1 a ha, hr.2⟩
  refine (keeps ((getCAByRef_uses _).mapError _) hq
    (Traced.mapError (getCAByRef_read i.caRef))).bind ?_
  intro q₁ rec hq₁ ⟨hrec, hun₁⟩
  refine traced_failIf_eq.bind ?_
  rintro _ _ - ⟨rfl, hpending⟩
  refine traced_failIf_eq.bind ?_
  rintro _ _ - ⟨rfl, _⟩
  refine traced_ofExcept_eq.bind ?_
  rintro _ lead - ⟨rfl, _⟩
  refine (keeps (validateNow_uses _) hun₁
    ((reads_rowWarrant _).traced (validateNow_uses lead.1))).bind ?_
  intro q₂ _ hq₂ ⟨_, hun₂⟩
  refine traced_ofExcept_eq.bind ?_
  rintro _ key - ⟨rfl, _⟩
  refine traced_ofExcept_eq.bind ?_
  rintro _ _ - ⟨rfl, _⟩
  refine (keeps (linkIssuer_uses s (by decide) _ _ _) hun₂ (linkIssuer_warranted s _ _ _)).bind ?_
  intro q₃ parentID hq₃ ⟨hparent, hun₃⟩
  have hwarrant : CompleteWarrant q₃ rec.id
      (Ca.importedRecord lead.1 rec.name rec.slug rec.keyEnc rec.keyType parentID) := {
    status := rfl
    certificate := rfl
    waiting := ⟨rec, hrec.extend (hq₂.trans hq₃), rfl, not_not.mp hpending⟩
    parent := hparent
    once := hun₃ }
  refine Traced.bind (m := fun _ _ => True) (Traced.mapResult (ca_saw (s := .completeCA _ _)
    hwarrant) fun _ _ _ _ _ _ => trivial) ?_
  intro q₄ _ hq₄ _
  refine traced_ite (fun _ => ?_) fun _ => ?_
  · refine ((marks_rowWarrant q₄).traced (ca_uses (s := .setDefaultCA rec.id)
      (List.mem_singleton_self Effect.setDefaultCA))).bind ?_
    intro q₅ _ hq₅ _
    refine ((reads_rowWarrant q₅).traced (audit_uses s _ _ _ _)).bind ?_
    intro q₆ _ hq₆ _
    exact (reads_rowWarrant q₆).traced (getCA_uses rec.id)
  · refine ((reads_rowWarrant q₄).traced (audit_uses s _ _ _ _)).bind ?_
    intro q₅ _ hq₅ _
    exact (reads_rowWarrant q₅).traced (getCA_uses rec.id)

end Handlers

/-! ## The server -/

section Served

variable [Go.Runtime]

/-- **Every row of the authorities is written under a warrant.** -/
theorem serve_rowWarrant (c : Call) : c.serve.Traced RowWarrant (fun _ _ => True) [] := by
  obtain ⟨acme, request⟩ := c
  cases request with
  | createCA i =>
    refine replying_traced (serviceCreateCA_traced acme.caSvc i (marks_rowWarrant _) ?_ ?_)
    · rintro q st - ⟨p, parent, hauth, _⟩
      obtain ⟨pub, priv, serial, t, _, _, _, _, rfl⟩ := hauth.signature
      exact trivial
    · intro q c _ hrow hslug hparent
      refine ⟨hrow, hslug, ?_⟩
      intro p hp
      obtain ⟨r, hr, hid, hcert⟩ := hparent p hp
      exact ⟨r, read_of_readCA hr, hid, fun _ => hcert⟩
  | createSubordinateCSR i => exact replying_traced (createSubordinateCSR_warranted acme.caSvc i)
  | completeSubordinate i =>
    refine replying_traced (completeSubordinate_warranted acme.caSvc i ?_)
    intro x hx
    cases hx
  | importCA i => exact replying_traced (importCA_warranted acme.caSvc i)
  | _ =>
    refine (serve_uses ⟨acme, _⟩).traced_of ?_ fun _ _ => trivial
    intro q s _ hs
    exact rowWarrant_of_within (by simp [Request.effects]) (by simp [Request.effects]) hs

/-- The authorities that a statement answers with are rows, and it leaves the rows alone. -/
theorem answered_stored {e : Env} {t : CaTables} {s : CaStmt} {a : s.Res}
    (h : (t.exec e s).1 = .ok a) {c : CA} (hc : c ∈ authoritiesOf ⟨.ca s, .ok a⟩) :
    (t.exec e s).2 = t ∧ c ∈ t.cas.rows := by
  have hpick {rows : List CA} {p : CA → Bool} (hrows : rows = t.cas.rows.filter p) {c : CA}
      (hc : c ∈ (pickRow e.pick rows).toList) : c ∈ t.cas.rows := by
    have hmem := List.mem_of_getElem? (Option.mem_toList.mp hc)
    rw [hrows] at hmem
    exact (List.mem_filter.mp hmem).1
  cases s with
  | selectCA id =>
    obtain rfl := Except.ok.inj h
    exact ⟨rfl, Sql.Table.mem_of_get? (Option.mem_toList.mp hc)⟩
  | selectCABySlug slug =>
    obtain rfl := Except.ok.inj h
    exact ⟨rfl, List.mem_of_find?_eq_some (Option.mem_toList.mp hc)⟩
  | selectCAByRef ref =>
    obtain rfl := Except.ok.inj h
    exact ⟨rfl, hpick rfl hc⟩
  | selectDefaultCA =>
    obtain rfl := Except.ok.inj h
    refine ⟨rfl, ?_⟩
    rcases Option.or_eq_some_iff.mp (Option.mem_toList.mp hc) with hc | ⟨_, hc⟩
    · exact (List.mem_filter.mp (List.mem_of_find?_eq_some hc)).1
    · exact (List.mem_filter.mp (List.mem_of_head? hc)).1
  | listCAs =>
    obtain rfl := Except.ok.inj h
    refine ⟨rfl, ?_⟩
    rcases List.mem_append.mp hc with hc | hc
    · exact (List.mem_filter.mp hc).1
    · exact (List.mem_filter.mp hc).1
  | selectCABySubjectKeyID ski =>
    obtain rfl := Except.ok.inj h
    exact ⟨rfl, hpick rfl hc⟩
  | selectCABySubject subject =>
    obtain rfl := Except.ok.inj h
    exact ⟨rfl, hpick rfl hc⟩
  | selectCAByFingerprint fp =>
    obtain rfl := Except.ok.inj h
    exact ⟨rfl, hpick rfl hc⟩
  | childCAs p =>
    obtain rfl := Except.ok.inj h
    exact ⟨rfl, (List.mem_filter.mp hc).1⟩
  | _ => cases hc

/-- **What is read of an authority is its row.** -/
theorem read_stored {e : Env} {w w' : World} {s : Stmt} {x : s.Ans}
    (h : exec e w s = some (x, w')) {c : CA} (hc : c ∈ authoritiesOf ⟨s, x⟩) :
    w'.ca = w.ca ∧ c ∈ w.ca.cas.rows := by
  cases s with
  | ca s =>
    obtain ⟨_, hx, rfl⟩ := exec_ca h
    cases x with
    | error err => cases s <;> cases hc
    | ok a =>
      obtain ⟨hans, hw⟩ := Fault.apply_ok hx.symm
      dsimp only
      rw [hw]
      exact answered_stored hans hc
  | acme s => cases hc
  | audit => cases hc
  | host s => cases hc

/-! ## The administrator -/

/-- A statement of a replica does what it does without an administrator. -/
theorem exec_of_admin {e : Env} {w w' : World} {s : Stmt} {x : s.Ans}
    (h : adminExec e w (.inl s) = some (x, w')) : exec e w s = some (x, w') := by
  obtain ⟨w₁, hexec, rfl⟩ := Interleave.Sem.sum_inl.mp h
  exact hexec

/-- What a statement of a task rests on: deleting an authority needs nothing. -/
def TaskWarrant (q : Trace adminSig) : adminSig.Stmt → Prop
  | .inl s => RowWarrant (Prog.leftTrace q) s
  | .inr _ => True

/-- A statement of the administrator, or one of a replica that has no effect. -/
def AdminOnly : adminSig.Stmt → Prop
  | .inl s => Within [] s
  | .inr _ => True

omit [Go.Runtime] in
theorem adminOnly_embed {ε α : Type} {x : Handler ε α} (hx : x.Uses (Within [])) :
    (x.embed : Act adminSig ε α).Uses AdminOnly := by
  refine Prog.Uses.embed ?_ hx
  intro s hs
  exact hs

omit [Go.Runtime] in
theorem deleting_uses {x : Act adminSig Go.Error Unit} (hx : x.Uses AdminOnly) :
    (deleting x).Uses AdminOnly := by
  refine Prog.Uses.bind hx ?_
  intro r
  cases r with
  | ok a => exact .pure _
  | error e => exact .pure _

/-- A deletion asks nothing of a replica but what reads. -/
theorem deletion_uses {t : Task} (h : ¬ ∃ c, t = .call c) : t.serve.Uses AdminOnly := by
  cases t with
  | call c => exact absurd ⟨c, rfl⟩ h
  | deleteCA svc id actor =>
    have hdelete : (Store.deleteCA id).Uses AdminOnly :=
      Uses.mapResult (.ask trivial fun _ => .pure _) _
    refine deleting_uses ((adminOnly_embed (getCA_uses id)).bind fun c => hdelete.bind fun _ => ?_)
    exact adminOnly_embed (audit_uses svc _ _ _ _)
  | deleteCertificate svc id actor ip =>
    have hdelete : (Store.deleteCertificate id).Uses AdminOnly :=
      Uses.mapResult (.ask trivial fun _ => .pure _) _
    refine deleting_uses ((adminOnly_embed (getCertificate_uses id)).bind fun c =>
      hdelete.bind fun _ => ?_)
    exact adminOnly_embed (recordAudit_uses svc _ _ _ _ _)

omit [Go.Runtime] in
theorem taskWarrant_of_adminOnly {q : Trace adminSig} {s : adminSig.Stmt} (hs : AdminOnly s) :
    TaskWarrant q s := by
  cases s with
  | inl s => exact rowWarrant_of_within (by decide) (by decide) hs
  | inr s => exact trivial

/-- **Every row is written under a warrant**, the administrator's tasks included. -/
theorem task_warrant (t : Task) : t.serve.Traced TaskWarrant (fun _ _ => True) [] := by
  by_cases hcall : ∃ c, t = .call c
  · obtain ⟨c, rfl⟩ := hcall
    refine Prog.Traced.embed (q := []) ?_ ?_ (serve_rowWarrant c)
    · intro q s hs
      exact hs
    · intro _ _ _
      exact trivial
  · exact (deletion_uses hcall).traced_of (fun _ _ _ => taskWarrant_of_adminOnly) fun _ _ => trivial

/-- What a task asks next is allowed to it, given what it has seen. -/
theorem task_may {m : Task → Trace adminSig → adminSig.Stmt → Prop}
    (h : ∀ task : Task, task.serve.Traced (m task) (fun _ _ => True) []) {w : World}
    {ts : List Task} {moves : Pool.Schedule Env} {i t : Nat} {s : adminSig.Stmt}
    (hs : (tasksUpto w ts moves i).next? t = some s) :
    ∃ task, ts[t]? = some task ∧
      m task (Interleave.own t (tasksUpto w ts moves i).history) s := by
  have htraced : Pool.Traced (fun t q s => ∃ task, ts[t]? = some task ∧ m task q s)
      (fun _ _ _ => True) (tasksUpto w ts moves i) := by
    refine (Pool.run_traced Pool.lawful_init (Pool.traced_init ?_) _).2
    intro t p hp
    rw [List.getElem?_map] at hp
    obtain ⟨task, htask, rfl⟩ := Option.map_eq_some_iff.mp hp
    exact (h task).mono (fun _ _ hmay => ⟨task, htask, hmay⟩) fun _ _ => id
  exact Pool.next_allowed htraced hs

/-- What a task asks next rests on its warrant. -/
theorem task_allowed {w : World} {ts : List Task} {moves : Pool.Schedule Env} {i t : Nat}
    {s : adminSig.Stmt} (h : (tasksUpto w ts moves i).next? t = some s) :
    TaskWarrant (Interleave.own t (tasksUpto w ts moves i).history) s := by
  obtain ⟨_, _, hwarrant⟩ := task_may (m := fun _ => TaskWarrant) task_warrant h
  exact hwarrant

/-- What a task has seen of a replica was asked at an earlier move. -/
theorem task_saw {w : World} {ts : List Task} {moves : Pool.Schedule Env} {i t : Nat}
    {s : Stmt} {x : s.Ans} (hi : i ≤ moves.length)
    (h : Saw (Prog.leftTrace (Interleave.own t (tasksUpto w ts moves i).history)) s x) :
    ∃ j e, j < i ∧ Pool.AskedAt adminExec (tasks w ts) moves j t e (.inl s) x :=
  Pool.history_origin hi rfl (Interleave.mem_own.mp (Prog.mem_leftTrace.mp h))

/-- What is on the trace that a task has of a replica was asked at a move before which it had the
trace before it. -/
theorem task_asked {w : World} {ts : List Task} {moves : Pool.Schedule Env} {i t : Nat}
    {q : Trace sig} {s : Stmt} {x : s.Ans} (hi : i ≤ moves.length)
    (h : q ++ [⟨s, x⟩] <+: Prog.leftTrace (Interleave.own t (tasksUpto w ts moves i).history)) :
    ∃ j e, j < i ∧ Pool.AskedAt adminExec (tasks w ts) moves j t e (.inl s) x ∧
      Prog.leftTrace (Interleave.own t (tasksUpto w ts moves j).history) = q := by
  obtain ⟨q', hq', rfl⟩ := Prog.leftTrace_prefix h
  obtain ⟨j, e, hj, hasked, hown⟩ := Pool.own_origin hi rfl hq'
  exact ⟨j, e, hj, hasked, congrArg Prog.leftTrace hown⟩

/-- The trace that a task has of a replica only grows. -/
theorem leftTrace_upto_mono (w : World) (ts : List Task) (moves : Pool.Schedule Env) (t : Nat)
    {i j : Nat} (hij : i ≤ j) :
    Prog.leftTrace (Interleave.own t (tasksUpto w ts moves i).history) <+:
      Prog.leftTrace (Interleave.own t (tasksUpto w ts moves j).history) := by
  obtain ⟨q, hq⟩ := Pool.own_upto_mono adminExec (tasks w ts) moves t hij
  unfold tasksUpto
  rw [← hq, Prog.leftTrace_append]
  exact List.prefix_append _ _

theorem leftTrace_asked {w : World} {ts : List Task} {moves : Pool.Schedule Env} {i t : Nat}
    {e : Env} {s : Stmt} {x : s.Ans}
    (h : Pool.AskedAt adminExec (tasks w ts) moves i t e (.inl s) x) :
    Prog.leftTrace (Interleave.own t (tasksUpto w ts moves (i + 1)).history) =
      Prog.leftTrace (Interleave.own t (tasksUpto w ts moves i).history) ++ [⟨s, x⟩] := by
  unfold tasksUpto
  rw [h.own, Prog.leftTrace_append]
  rfl

/-- What a statement of a task rests on: that of a request on what is proved of requests. -/
def TaskMay (may : Call → Trace sig → Stmt → Prop) (t : Task) (q : Trace adminSig)
    (s : adminSig.Stmt) : Prop :=
  match t with
  | .call c => ∃ s', s = .inl s' ∧ may c (Prog.leftTrace q) s'
  | .deleteCA _ _ _ | .deleteCertificate _ _ _ _ => AdminOnly s

omit [Go.Runtime] in
theorem taskMay_of_adminOnly {may : Call → Trace sig → Stmt → Prop} {t : Task}
    (h : ¬ ∃ c, t = .call c) {q : Trace adminSig} {s : adminSig.Stmt} (hs : AdminOnly s) :
    TaskMay may t q s := by
  cases t with
  | call c => exact absurd ⟨c, rfl⟩ h
  | deleteCA | deleteCertificate => exact hs

/-- What is proved of every request is proved of every task. -/
theorem task_traced {may : Call → Trace sig → Stmt → Prop}
    {post : Call → Trace sig → Reply → Prop} (h : ∀ c : Call, c.serve.Traced (may c) (post c) [])
    (t : Task) : t.serve.Traced (TaskMay may t)
      (fun q r => ∀ c, t = .call c → post c (Prog.leftTrace q) r) [] := by
  by_cases hcall : ∃ c, t = .call c
  · obtain ⟨c, rfl⟩ := hcall
    refine Prog.Traced.embed (q := []) (fun q s hs => ⟨s, rfl, hs⟩) ?_ (h c)
    rintro q r hr c' ⟨⟩
    exact hr
  · exact (deletion_uses hcall).traced_of (fun _ _ _ => taskMay_of_adminOnly hcall)
      fun _ _ c hc => absurd ⟨c, hc⟩ hcall

/-- What a task asks next rests on what is proved of requests. -/
theorem taskMay_next {may : Call → Trace sig → Stmt → Prop}
    {post : Call → Trace sig → Reply → Prop} (h : ∀ c : Call, c.serve.Traced (may c) (post c) [])
    {w : World} {ts : List Task} {moves : Pool.Schedule Env} {i t : Nat} {s : adminSig.Stmt}
    (hs : (tasksUpto w ts moves i).next? t = some s) :
    ∃ task, ts[t]? = some task ∧
      TaskMay may task (Interleave.own t (tasksUpto w ts moves i).history) s :=
  task_may (fun task => (task_traced h task).mono (fun _ _ => id) fun _ _ _ => trivial) hs

/-- And so does a request that has ended. -/
theorem call_ended {may : Call → Trace sig → Stmt → Prop}
    {post : Call → Trace sig → Reply → Prop} (h : ∀ c : Call, c.serve.Traced (may c) (post c) [])
    {w : World} {ts : List Task} {moves : Pool.Schedule Env} {i t : Nat} {c : Call}
    (ht : ts[t]? = some (.call c)) {r : Reply}
    (hr : (tasksUpto w ts moves i).threads[t]? = some (.pure r)) :
    post c (Prog.leftTrace (Interleave.own t (tasksUpto w ts moves i).history)) r := by
  have htraced : Pool.Traced (fun _ _ _ => True) (fun t q r => ∀ c, ts[t]? = some (.call c) →
      post c (Prog.leftTrace q) r) (tasksUpto w ts moves i) := by
    refine (Pool.run_traced Pool.lawful_init (Pool.traced_init ?_) _).2
    intro t p hp
    rw [List.getElem?_map] at hp
    obtain ⟨task, htask, rfl⟩ := Option.map_eq_some_iff.mp hp
    refine (task_traced h task).mono (fun _ _ _ => trivial) fun q r hpost c hc => ?_
    exact hpost c (Option.some.inj (htask.symm.trans hc))
  exact Prog.traced_pure.mp (htraced t _ hr) c ht

/-- **The invariant rule for tasks**: what holds at the start and is kept by every statement that a
task may ask holds before every move. -/
theorem task_invariant {P : World → Prop} {w : World} {ts : List Task}
    {moves : Pool.Schedule Env} (init : P w)
    (step : ∀ e w q s x w', TaskWarrant q s → adminExec e w s = some (x, w') → P w → P w')
    {i : Nat} (hi : i ≤ moves.length) : P (tasksUpto w ts moves i).world := by
  induction i with
  | zero => exact init
  | succ i ih =>
    rcases Pool.upto_asked adminExec (tasks w ts) hi with hs | ⟨s, x, hasked, _⟩
    · show P (Pool.upto adminExec _ moves (i + 1)).world
      rw [hs]
      exact ih (by omega)
    · exact step _ _ _ s x _ (task_allowed hasked.next) hasked.exec (ih (by omega))

end Served

end Goca
