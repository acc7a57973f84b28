import Goca.Laws.Footprint

/-!
# Where an import stops

An import checks what it was given, and then writes. Behind its first write it goes on until it is
refused: by a statement that inserts, completes or reads back an authority or moves the default, or
because a default needs a key. Whatever else it asks by then is read or recorded on the side, and a
failure of that is passed over (`serve_ends`).
-/

set_option autoImplicit false

namespace Goca

open Goca.Pki (PemText X509)
open Goca.Store
open Interleave (Act Prog Trace)
open Interleave.Act

/-! ## Imports -/

/-- An operation that brings an external certificate in. -/
inductive Incoming
  | importCA (i : Ca.ImportCAInput)
  | completeSubordinate (i : Ca.CompleteSubordinateInput)

/-- The call of such an operation. -/
def Incoming.call (acme : Acme.Service) : Incoming → Call
  | .importCA i => ⟨acme, .importCA i⟩
  | .completeSubordinate i => ⟨acme, .completeSubordinate i⟩

/-- It asks for a default that comes without a key. -/
def Incoming.Keyless : Incoming → Prop
  | .importCA i => i.makeDefault = true ∧ i.keyPEM = .blank
  | .completeSubordinate _ => False

/-- A statement that inserts an authority or completes one. -/
def writesCA : Stmt → Bool
  | .ca (.insertCA _) | .ca (.completeCA _ _) => true
  | _ => false

/-- Whether a reply of package ca is an error. -/
def Reply.isError : Reply → Bool
  | .failed _ => true
  | _ => false

/-! ## What stops one -/

/-- An answer that stops an import: an authority is not inserted, completed or read back, or not
made the default. -/
def stopped : (s : Stmt) × s.Ans → Bool
  | ⟨.ca (.insertCA _), .error _⟩ | ⟨.ca (.setDefaultCA _), .error _⟩ => true
  | ⟨.ca (.completeCA _ _), .error _⟩ | ⟨.ca (.completeCA _ _), .ok 0⟩ => true
  | ⟨.ca (.selectCA _), .error _⟩ | ⟨.ca (.selectCA _), .ok none⟩ => true
  | _ => false

/-- So far nothing has stopped the import. -/
def Steady (q : Trace sig) : Prop := ∀ x ∈ q, stopped x = false

/-- So far nothing was written. -/
def Unwritten (q : Trace sig) : Prop := ∀ x ∈ q, writesCA x.1 = false

/-- A statement that writes no authority, and whose answer is passed over. -/
def Passing (s : Stmt) : Prop := writesCA s = false ∧ ∀ x, stopped ⟨s, x⟩ = false

theorem steady_nil : Steady [] := fun _ h => absurd h List.not_mem_nil

theorem unwritten_nil : Unwritten [] := fun _ h => absurd h List.not_mem_nil

theorem steady_snoc {q : Trace sig} {s : Stmt} {x : s.Ans} (hq : Steady q) :
    Steady (q ++ [⟨s, x⟩]) ↔ stopped ⟨s, x⟩ = false := by
  constructor
  · exact fun h => h _ (List.mem_append_right q (List.mem_singleton_self _))
  · intro hx y hy
    rcases List.mem_append.mp hy with hy | hy
    · exact hq y hy
    · rw [List.mem_singleton.mp hy]
      exact hx

theorem unwritten_snoc {q : Trace sig} {s : Stmt} {x : s.Ans} (hq : Unwritten q)
    (hs : writesCA s = false) : Unwritten (q ++ [⟨s, x⟩]) := by
  intro y hy
  rcases List.mem_append.mp hy with hy | hy
  · exact hq y hy
  · rw [List.mem_singleton.mp hy]
    exact hs

section Pieces

variable {ε ε' α β : Type} {q : Trace sig}

/-- Nothing is asked behind what stops an import. -/
abbrev OnlySteady (q : Trace sig) (_ : Stmt) : Prop := Steady q

/-- A piece of an import that nothing stops. -/
def Passes (x : Handler ε α) : Prop := ∀ q, Steady q → x.run.Traced OnlySteady
  (fun q' r => (Steady q' ∧ (Unwritten q → Unwritten q')) ∧ ∃ a, r = .ok a) q

/-- A piece of an import that fails where one of its statements stops it, and only there. -/
def Stops (x : Handler ε α) : Prop := ∀ q, Steady q →
  x.run.Traced OnlySteady (fun q' r => (∃ a, r = .ok a) ↔ Steady q') q

/-- How an import ends, where `K` says that it is refused as a default without a key: it succeeds
where nothing has stopped it, and an error behind a write has one of these reasons. -/
def Ends (K : Prop) (q : Trace sig) (r : Except ε α) : Prop :=
  (∀ a, r = .ok a → Steady q ∧ ¬ K) ∧ ∀ e, r = .error e → ¬ Steady q ∨ K ∨ Unwritten q

/-- What is passed over leaves an import where it was. -/
theorem passing_traced {x : Handler ε α} (hx : x.Uses Passing) (hq : Steady q) :
    x.run.Traced OnlySteady (fun q' _ => Steady q' ∧ (Unwritten q → Unwritten q')) q := by
  refine Prog.Uses.traced_keeps (J := fun q' => Steady q' ∧ (Unwritten q → Unwritten q')) hx
    (fun _ _ h _ => h.1) ?_ ⟨hq, id⟩
  intro q' s x h hs
  exact ⟨(steady_snoc h.1).mpr (hs.2 x), fun hu => unwritten_snoc (h.2 hu) hs.1⟩

theorem passes_pure (a : α) : Passes (pure a : Handler ε α) :=
  fun _ hq => Prog.traced_pure.mpr ⟨⟨hq, id⟩, a, rfl⟩

theorem Passes.bind {x : Handler ε α} {f : α → Handler ε β} (hx : Passes x)
    (hf : ∀ a, Passes (f a)) : Passes (x >>= f) := by
  intro q hq
  refine traced_run_bind (hx q hq) ?_ ?_
  · intro q' a _ h
    refine (hf a q' h.1.1).mono (fun _ _ => id) fun _ _ h' => ?_
    exact ⟨⟨h'.1.1, fun hu => h'.1.2 (h.1.2 hu)⟩, h'.2⟩
  · rintro q' e _ ⟨_, a, ha⟩
    cases ha

theorem passes_ite {c : Prop} [Decidable c] {x y : Handler ε α} (hx : Passes x) (hy : Passes y) :
    Passes (if c then x else y) := by
  split
  · exact hx
  · exact hy

/-- A read whose failure is a value is passed over. -/
theorem passes_attempt {x : Handler ε α} (hx : x.Uses Passing) :
    Passes (x.attempt : Handler ε' (Except ε α)) := by
  intro q hq
  refine Prog.Traced.bind (passing_traced hx hq) fun q' r _ h => ?_
  exact Prog.traced_pure.mpr ⟨h, r, rfl⟩

theorem passes_host {s : HostStmt} (hs : Passing (.host s)) :
    Passes (host s : Handler ε s.Res) := by
  intro q hq
  refine Prog.traced_ask.mpr ⟨hq, fun x => Prog.traced_pure.mpr ⟨⟨?_, fun hu => ?_⟩, x, rfl⟩⟩
  · exact (steady_snoc hq).mpr (hs.2 x)
  · exact unwritten_snoc hu hs.1

theorem Passes.stops {x : Handler ε α} (hx : Passes x) : Stops x := by
  intro q hq
  refine (hx q hq).mono (fun _ _ => id) fun q' r h => ?_
  exact ⟨fun _ => h.1.1, fun _ => h.2⟩

theorem Stops.bind {x : Handler ε α} {f : α → Handler ε β} (hx : Stops x)
    (hf : ∀ a, Stops (f a)) : Stops (x >>= f) := by
  intro q hq
  refine traced_run_bind (hx q hq) ?_ ?_
  · exact fun q' a _ h => hf a q' (h.mp ⟨a, rfl⟩)
  · intro q' e _ h
    refine ⟨fun ⟨b, hb⟩ => (nomatch hb), fun hq' => ?_⟩
    obtain ⟨a, ha⟩ := h.mpr hq'
    cases ha

theorem stops_ite {c : Prop} [Decidable c] {x y : Handler ε α} (hx : Stops x) (hy : Stops y) :
    Stops (if c then x else y) := by
  split
  · exact hx
  · exact hy

theorem Stops.mapError {f : ε → ε'} {x : Handler ε α} (hx : Stops x) : Stops (x.mapError f) := by
  intro q hq
  refine traced_run_mapError (hx q hq) fun q' r h => ?_
  rw [← h]
  cases r with
  | ok a => exact ⟨fun _ => ⟨a, rfl⟩, fun _ => ⟨a, rfl⟩⟩
  | error e => exact ⟨fun ⟨_, h⟩ => (nomatch h), fun ⟨_, h⟩ => (nomatch h)⟩

/-- A statement stops an import where its answer does. -/
theorem stops_ca {s : CaStmt} {f : Except Go.Error s.Res → Except Go.Error α}
    (h : ∀ x, (∃ a, f x = .ok a) ↔ stopped ⟨.ca s, x⟩ = false) : Stops ((ca s).mapResult f) := by
  intro q hq
  refine Prog.traced_ask.mpr ⟨hq, fun x => Prog.traced_pure.mpr ?_⟩
  rw [steady_snoc hq]
  exact h x

/-! ## How an import ends -/

variable {K : Prop}

/-- Before the first write a check may fail. -/
theorem ends_check {x : Handler ε α} {f : α → Handler ε β} (hx : x.Uses Passing) (hq : Steady q)
    (hu : Unwritten q) (hf : ∀ q' a, Steady q' → Unwritten q' →
      (f a).run.Traced OnlySteady (Ends K) q') : (x >>= f).run.Traced OnlySteady (Ends K) q := by
  refine traced_run_bind (passing_traced hx hq) ?_ ?_
  · exact fun q' a _ h => hf q' a h.1 (h.2 hu)
  · intro q' e _ h
    exact ⟨fun _ h => (nomatch h), fun _ _ => .inr (.inr (h.2 hu))⟩

theorem ends_ofExcept {r : Except ε α} {f : α → Handler ε β} (hu : Unwritten q)
    (hf : ∀ a, r = .ok a → (f a).run.Traced OnlySteady (Ends K) q) :
    (ofExcept r >>= f).run.Traced OnlySteady (Ends K) q := by
  cases r with
  | error e => exact Prog.traced_pure.mpr ⟨fun _ h => (nomatch h), fun _ _ => .inr (.inr hu)⟩
  | ok a => exact hf a rfl

/-- Behind a write a piece fails where it is stopped. -/
theorem Stops.ends_bind {x : Handler ε α} {f : α → Handler ε β} (hx : Stops x) (hq : Steady q)
    (hf : ∀ q' a, Steady q' → (f a).run.Traced OnlySteady (Ends K) q') :
    (x >>= f).run.Traced OnlySteady (Ends K) q := by
  refine traced_run_bind (hx q hq) ?_ ?_
  · exact fun q' a _ h => hf q' a (h.mp ⟨a, rfl⟩)
  · intro q' e _ h
    refine ⟨fun _ h => (nomatch h), fun _ _ => .inl fun hq' => ?_⟩
    obtain ⟨a, ha⟩ := h.mpr hq'
    cases ha

theorem Stops.ends {x : Handler ε α} (hx : Stops x) (hq : Steady q) (hK : ¬ K) :
    x.run.Traced OnlySteady (Ends K) q := by
  refine (hx q hq).mono (fun _ _ => id) fun q' r h => ⟨?_, ?_⟩
  · rintro a rfl
    exact ⟨h.mp ⟨a, rfl⟩, hK⟩
  · rintro e rfl
    refine .inl fun hq' => ?_
    obtain ⟨a, ha⟩ := h.mpr hq'
    cases ha

/-- A part that ends as an import does. -/
theorem ends_bind {x : Handler ε α} {f : α → Handler ε β}
    (hx : x.run.Traced OnlySteady (Ends False) q)
    (hf : ∀ q' a, Steady q' → (f a).run.Traced OnlySteady (Ends K) q') :
    (x >>= f).run.Traced OnlySteady (Ends K) q := by
  refine traced_run_bind hx ?_ ?_
  · exact fun q' a _ h => hf q' a (h.1 a rfl).1
  · intro q' e _ h
    refine ⟨fun _ h => (nomatch h), fun _ _ => ?_⟩
    rcases h.2 e rfl with h | h | h
    · exact .inl h
    · exact h.elim
    · exact .inr (.inr h)

end Pieces

/-! ## Package store -/

section Store

variable {ε : Type}

/-- What looks an authority up, other than by its number, is passed over. -/
theorem lookup_passing {s : CaStmt} {α : Type} {f : Except Go.Error s.Res → Except Go.Error α}
    (hs : Passing (.ca s)) : ((ca s).mapResult f).Uses Passing := (ca_uses hs).mapResult f

theorem getCAByRef_passing (ref : String) : (getCAByRef ref).Uses Passing := by
  unfold getCAByRef
  refine uses_ite (fun _ => ?_) fun _ => ?_
  · exact lookup_passing ⟨rfl, fun _ => rfl⟩
  · exact lookup_passing ⟨rfl, fun _ => rfl⟩

theorem findCABySubjectKeyID_passing (ski : String) :
    (findCABySubjectKeyID ski).Uses Passing := by
  unfold findCABySubjectKeyID
  exact uses_ite (fun _ => uses_throw _) fun _ => lookup_passing ⟨rfl, fun _ => rfl⟩

theorem markDefault_passes (c : CA) : Passes (markDefault c) := by
  unfold markDefault
  refine passes_ite ?_ (passes_pure c)
  exact (passes_attempt (ca_uses ⟨rfl, fun _ => rfl⟩)).bind fun n => passes_pure _

theorem getCA_stops (id : Nat) : Stops (getCA id) := by
  refine stops_ca fun x => ?_
  rcases x with e | _ | c
  · exact ⟨fun ⟨_, h⟩ => (nomatch h), fun h => (nomatch h)⟩
  · exact ⟨fun ⟨_, h⟩ => (nomatch h), fun h => (nomatch h)⟩
  · exact ⟨fun _ => rfl, fun _ => ⟨c, rfl⟩⟩

theorem createCA_stops (c : CA) : Stops (Store.createCA c) := by
  refine (markDefault_passes c).stops.bind fun c => ?_
  refine Stops.bind (Stops.mapError (x := ca (.insertCA c)) ?_) fun id => getCA_stops id
  intro q hq
  refine Prog.traced_ask.mpr ⟨hq, fun x => Prog.traced_pure.mpr ?_⟩
  rw [steady_snoc hq]
  cases x with
  | error e => exact ⟨fun ⟨_, h⟩ => (nomatch h), fun h => (nomatch h)⟩
  | ok id => exact ⟨fun _ => rfl, fun _ => ⟨id, rfl⟩⟩

theorem setDefaultCA_stops (id : Nat) : Stops (Store.setDefaultCA id) := by
  intro q hq
  refine Prog.traced_ask.mpr ⟨hq, fun x => Prog.traced_pure.mpr ?_⟩
  rw [steady_snoc hq]
  cases x with
  | error e => exact ⟨fun ⟨_, h⟩ => (nomatch h), fun h => (nomatch h)⟩
  | ok u => exact ⟨fun _ => rfl, fun _ => ⟨u, rfl⟩⟩

theorem completeCA_stops (id : Nat) (c : CA) : Stops (Store.completeCA id c) := by
  refine stops_ca fun x => ?_
  rcases x with e | _ | n
  · exact ⟨fun ⟨_, h⟩ => (nomatch h), fun h => (nomatch h)⟩
  · exact ⟨fun ⟨_, h⟩ => (nomatch h), fun h => (nomatch h)⟩
  · exact ⟨fun _ => rfl, fun _ => ⟨(), rfl⟩⟩

end Store

/-! ## Package ca -/

section Ca

variable [Go.Runtime] {ε : Type} {q : Trace sig}

omit [Go.Runtime] in
theorem audit_passes (s : Ca.Service) (actor action target detail : String) :
    Passes (s.audit actor action target detail : Handler ε Unit) := by
  have hrow : (Ca.insertAudit (if actor = "" then "system" else actor) action target detail
      "").Uses Passing := .ask ⟨rfl, fun _ => rfl⟩ fun _ => .pure _
  refine (passes_attempt hrow).bind fun r => ?_
  exact passes_ite (passes_host ⟨rfl, fun _ => rfl⟩) (passes_pure ())

theorem uniqueSlug_passes (name : String) : Passes (Ca.uniqueSlug name : Handler ε String) := by
  unfold Ca.uniqueSlug
  generalize Ca.slugify name = base
  suffices h : ∀ fuel i slug, Passes (Ca.uniqueSlugLoop base fuel i slug : Handler ε String) from
    h 98 2 base
  intro fuel
  induction fuel with
  | zero => exact fun _ _ => (passes_host ⟨rfl, fun _ => rfl⟩).bind fun t => passes_pure _
  | succ fuel ih =>
    intro i slug
    refine (passes_attempt (lookup_passing ⟨rfl, fun _ => rfl⟩)).bind fun found => ?_
    cases found with
    | error e => exact passes_ite (passes_pure slug) (ih _ _)
    | ok c => exact ih _ _

omit [Go.Runtime] in
theorem uniqueName_passes (name : String) : Passes (Ca.uniqueName name : Handler ε String) := by
  suffices h : ∀ fuel i candidate,
      Passes (Ca.uniqueNameLoop name fuel i candidate : Handler ε String) from h 98 2 name
  intro fuel
  induction fuel with
  | zero => exact fun _ _ => passes_pure name
  | succ fuel ih =>
    intro i candidate
    refine (passes_attempt (getCAByRef_passing candidate)).bind fun found => ?_
    cases found with
    | error e => exact passes_ite (passes_pure candidate) (ih _ _)
    | ok c => exact ih _ _

omit [Go.Runtime] in
theorem findIssuerID_passes (cert : X509) :
    Passes (Ca.findIssuerID cert : Handler ε (Option Nat)) := by
  unfold Ca.findIssuerID
  refine (passes_attempt (findCABySubjectKeyID_passing _)).bind fun byKey => ?_
  cases Ca.confirmedIssuer cert byKey with
  | some id => exact passes_pure _
  | none =>
    refine (passes_attempt (lookup_passing ⟨rfl, fun _ => rfl⟩)).bind fun bySubject => ?_
    cases Ca.confirmedIssuer cert bySubject with
    | some id => exact passes_pure _
    | none =>
      refine (passes_attempt (ca_uses ⟨rfl, fun _ => rfl⟩)).bind fun all => ?_
      cases all with
      | error e => exact passes_pure _
      | ok all => exact passes_pure _

omit [Go.Runtime] in
theorem validateNow_passing (cert : X509) : (Ca.validateNow cert).Uses Passing :=
  (host_uses ⟨rfl, fun _ => rfl⟩).bind fun _ => uses_ofExcept _

variable (s : Ca.Service)

/-- One certificate of a chain. -/
theorem importAnchor_stops (actor : String) (anchor : X509) :
    Stops (s.importAnchor actor anchor) := by
  refine (passes_attempt (lookup_passing ⟨rfl, fun _ => rfl⟩)).stops.bind fun known => ?_
  cases known with
  | ok c => exact (passes_pure ()).stops
  | error e =>
    refine stops_ite (passes_pure ()).stops ?_
    refine (findIssuerID_passes anchor).stops.bind fun parentID => ?_
    refine (uniqueName_passes _).stops.bind fun unique => ?_
    refine (uniqueSlug_passes _).stops.bind fun slug => ?_
    exact (createCA_stops _).mapError.bind fun c => (audit_passes s _ _ _ _).stops

theorem importAnchors_stops (actor : String) (anchors : List X509) :
    Stops (s.importAnchors actor anchors) := by
  induction anchors with
  | nil => exact (passes_pure ()).stops
  | cons anchor rest ih => exact (importAnchor_stops s actor anchor).bind fun _ => ih

/-- **The issuer of a certificate**: a chain that cannot be read is refused before it is stored. -/
theorem linkIssuer_ends (cert : X509) (chainPEM : PemText) (actor : String) (hq : Steady q)
    (hu : Unwritten q) :
    (s.linkIssuer cert chainPEM actor).run.Traced OnlySteady (Ends False) q := by
  unfold Ca.Service.linkIssuer
  by_cases hself : Pki.isSelfSigned cert = true
  · rw [if_pos hself]
    exact (passes_pure none).stops.ends hq not_false
  · rw [if_neg hself]
    refine traced_run_bind (findIssuerID_passes cert q hq) ?_ ?_
    · intro q₁ stored _ h₁
      obtain ⟨⟨hq₁, hu₁⟩, _⟩ := h₁
      cases stored with
      | some id => exact (passes_pure (some id)).stops.ends hq₁ not_false
      | none =>
        by_cases hblank : chainPEM.blank = true
        · show Prog.Traced _ _ (ExceptT.run (if chainPEM.blank = true then pure none else _)) _
          rw [if_pos hblank]
          exact (passes_pure none).stops.ends hq₁ not_false
        · show Prog.Traced _ _ (ExceptT.run (if chainPEM.blank = true then pure none else _)) _
          rw [if_neg hblank]
          refine ends_ofExcept (hu₁ hu) fun chain _ => ?_
          refine (importAnchors_stops s actor chain.reverse).ends_bind hq₁ fun q₂ _ hq₂ => ?_
          exact (findIssuerID_passes cert).stops.ends hq₂ not_false
    · rintro q₁ e _ ⟨_, a, ha⟩
      cases ha

omit [Go.Runtime] in
/-- A supplied key is none exactly where the text is blank. -/
theorem importedKey_eq_none {text : Pki.KeyText} {cert : X509} {key : Option Pki.PrivateKey}
    (h : Ca.importedKey text cert = .ok key) : key = none ↔ text = .blank := by
  unfold Ca.importedKey at h
  split at h
  · cases h
    exact ⟨fun _ => rfl, fun _ => rfl⟩
  · next htext =>
    obtain ⟨k, _, h⟩ := Go.bind_eq_ok.mp h
    obtain ⟨_, _, h⟩ := Go.bind_eq_ok.mp h
    cases h
    exact ⟨fun h => (nomatch h), fun h => absurd h htext⟩

omit [Go.Runtime] in
theorem makeDefaultIf_stops (wanted : Bool) (c : CA) : Stops (Ca.makeDefaultIf wanted c) := by
  unfold Ca.makeDefaultIf
  refine stops_ite ?_ (passes_pure c).stops
  exact (setDefaultCA_stops c.id).bind fun _ => (passes_pure _).stops

/-- **ImportCA** is stopped behind a write, or refused as a default without a key. -/
theorem importCA_ends (i : Ca.ImportCAInput) (hq : Steady q) (hu : Unwritten q) :
    (s.importCA i).run.Traced OnlySteady (Ends (i.makeDefault = true ∧ i.keyPEM = .blank)) q := by
  refine ends_check (uses_failIf _ _) hq hu fun q _ hq hu => ?_
  refine ends_ofExcept hu ?_
  rintro ⟨cert, chainPEM⟩ _
  refine ends_check (validateNow_passing cert) hq hu fun q _ hq hu => ?_
  refine ends_check (lookup_passing ⟨rfl, fun _ => rfl⟩).attempt hq hu fun q existing hq hu => ?_
  refine ends_ofExcept hu fun _ _ => ?_
  refine ends_ofExcept hu fun key hkey => ?_
  refine ends_bind (linkIssuer_ends s cert chainPEM i.actor hq hu) fun q parentID hq => ?_
  dsimp only
  refine (uniqueName_passes _).stops.ends_bind hq fun q unique hq => ?_
  refine (uniqueSlug_passes _).stops.ends_bind hq fun q slug hq => ?_
  refine (createCA_stops _).ends_bind hq fun q saved hq => ?_
  rw [← importedKey_eq_none hkey]
  refine traced_run_failIf_bind (fun hK => ?_) fun hK => ?_
  · exact ⟨fun _ h => (nomatch h), fun _ _ => .inr (.inl hK)⟩
  · refine Stops.ends ?_ hq hK
    refine (makeDefaultIf_stops i.makeDefault saved).bind fun saved => ?_
    exact (audit_passes s _ _ _ _).stops.bind fun _ => (passes_pure saved).stops

/-- **CompleteSubordinate** is stopped behind a write. -/
theorem completeSubordinate_ends (i : Ca.CompleteSubordinateInput) (hq : Steady q)
    (hu : Unwritten q) :
    (s.completeSubordinate i).run.Traced OnlySteady (Ends False) q := by
  refine ends_check ((getCAByRef_passing i.caRef).mapError _) hq hu fun q row hq hu => ?_
  refine ends_check (uses_failIf _ _) hq hu fun q _ hq hu => ?_
  refine ends_check (uses_failIf _ _) hq hu fun q _ hq hu => ?_
  refine ends_ofExcept hu ?_
  rintro ⟨cert, chainPEM⟩ _
  refine ends_check (validateNow_passing cert) hq hu fun q _ hq hu => ?_
  refine ends_ofExcept hu fun key _ => ?_
  refine ends_ofExcept hu fun _ _ => ?_
  refine ends_bind (linkIssuer_ends s cert chainPEM i.actor hq hu) fun q parentID hq => ?_
  refine Stops.ends ?_ hq not_false
  have hrest := (audit_passes (ε := Go.Error) s i.actor "ca.completed" row.name ("serial=" ++
    Pki.serialHex cert.serialNumber ++ " issuer=" ++ Go.quote (Pki.describe cert).issuer ++
    " valid_until=" ++ cert.notAfter.date)).stops.bind fun _ => getCA_stops row.id
  refine (completeCA_stops row.id _).bind fun _ => stops_ite ?_ hrest
  exact (setDefaultCA_stops row.id).bind fun _ => hrest

/-- **How an import ends**: it answers with an authority where nothing has stopped it, and an error
behind a write has a reason. -/
theorem serve_ends (acme : Acme.Service) (r : Incoming) :
    (r.call acme).serve.Traced OnlySteady (fun q reply =>
      (reply.isError = false → Steady q ∧ ¬ r.Keyless) ∧
        (reply.isError = true → ¬ Steady q ∨ r.Keyless ∨ Unwritten q)) [] := by
  have hreply {α : Type} {ok : α → Reply} {x : Handler Go.Error α}
      (hok : ∀ a, (ok a).isError = false) (hx : x.run.Traced OnlySteady (Ends r.Keyless) []) :
      (replying .failed ok x).Traced OnlySteady (fun q reply =>
        (reply.isError = false → Steady q ∧ ¬ r.Keyless) ∧
          (reply.isError = true → ¬ Steady q ∨ r.Keyless ∨ Unwritten q)) [] := by
    refine Prog.Traced.bind hx fun q res _ h => ?_
    cases res with
    | ok a =>
      refine Prog.traced_pure.mpr ⟨fun _ => h.1 a rfl, fun herror => ?_⟩
      rw [hok] at herror
      cases herror
    | error e => exact Prog.traced_pure.mpr ⟨fun h => (nomatch h), fun _ => h.2 e rfl⟩
  cases r with
  | importCA i => exact hreply (fun _ => rfl) (importCA_ends _ i steady_nil unwritten_nil)
  | completeSubordinate i =>
    exact hreply (fun _ => rfl) (completeSubordinate_ends _ i steady_nil unwritten_nil)

end Ca

end Goca
