import Goca.Laws.AuthorityTable
import Goca.Laws.Reasons

/-!
# Revocation lists and their numbers

`GenerateCRL` reads the revoked certificates, reads the retired authorities, takes the next number
and signs, each in a statement of its own. Only the number is taken in one statement with its
increment, so the numbers come in the order in which they are taken, whatever else goes on. What a
list says is as old as its reads.

`lists_sound` puts the two together for every interleaving. A serial stays on the lists whose reads
follow, until a release, the deletion of the certificate or that of the authority takes it off. Of
two lists whose reads and numbers come in different orders nothing is said, and nothing could be:
the newer one may have read before a revocation and the older one after it.
-/

set_option autoImplicit false

namespace Goca

open Goca.Pki (CRL CRLEntry RevokedEntry serialFromHex)
open Goca.Store
open Interleave (Act Pool Prog Trace own)
open Interleave.Act
open Sql (Table)

/-! ## Entries -/

/-- What a row says of a revocation. -/
structure Recorded where
  serialHex : String
  revokedAt : Option Go.Time
  reason : Int

/-- A revoked certificate. -/
def recordedCertificate (c : Certificate) : Recorded := ⟨c.serialHex, c.revokedAt, c.revokeCode⟩

/-- A retired authority. -/
def recordedAuthority (r : CARevocation) : Recorded := ⟨r.serialHex, some r.revokedAt, r.reason⟩

section Entries

variable [Go.Runtime]

/-- An entry says what the row says, and it has a time where the row has none. -/
structure Enters (r : Recorded) (e : CRLEntry) : Prop where
  serial : serialFromHex r.serialHex = some e.serialNumber
  reason : e.reasonCode = r.reason
  time : ∀ t, r.revokedAt = some t → t ≠ Go.Time.zero → e.revocationTime = t

/-- The same of an entry that is not yet signed. -/
structure Prepares (r : Recorded) (e : RevokedEntry) : Prop where
  serial : e.serialHex = r.serialHex
  reason : e.reason = r.reason
  time : ∀ t, r.revokedAt = some t → e.revokedAt = t

omit [Go.Runtime] in
theorem certEntries_prepares {ε : Type} {may : Trace sig → Stmt → Prop} {q : Trace sig}
    (hread : AllowsReads may q) (certs : List Certificate) :
    (Ca.certEntries certs : Handler ε (List RevokedEntry)).Traced may
      (fun _ es => List.Forall₂ Prepares (certs.map recordedCertificate) es) q := by
  induction certs generalizing q with
  | nil => exact traced_pure .nil
  | cons c rest ih =>
    refine (now_saw hread.now).bind fun q₁ t hq₁ _ => ?_
    refine (ih (hread.extend hq₁)).bind fun q₂ es _ hes => traced_pure (.cons ⟨rfl, rfl, ?_⟩ hes)
    intro t' ht'
    exact (congrArg (·.getD t) ht' : c.revokedAt.getD t = t')

omit [Go.Runtime] in
theorem caEntries_prepare (revs : List CARevocation) :
    List.Forall₂ Prepares (revs.map recordedAuthority) (revs.map Ca.caEntry) := by
  rw [List.forall₂_map_left_iff, List.forall₂_map_right_iff, List.forall₂_same]
  exact fun r _ => ⟨rfl, rfl, fun t ht => Option.some.inj ht⟩

theorem enters_of_crlEntry {now : Go.Time} {r : Recorded} {p : RevokedEntry} {e : CRLEntry}
    (hp : Prepares r p) (h : Pki.crlEntry now p = .ok e) : Enters r e := by
  unfold Pki.crlEntry at h
  split at h
  · cases h
  · next serial hserial =>
    obtain rfl := Except.ok.inj h
    refine ⟨hp.serial ▸ hserial, hp.reason, fun t ht hzero => ?_⟩
    rw [← hp.time t ht] at hzero ⊢
    exact if_neg hzero

/-- The entries that are signed are those of the rows, in their order. -/
theorem enters_of_crlEntries {now : Go.Time} {rs : List Recorded} {ps : List RevokedEntry}
    {es : List CRLEntry} (hps : List.Forall₂ Prepares rs ps) (h : Pki.crlEntries now ps = .ok es) :
    List.Forall₂ Enters rs es := by
  induction hps generalizing es with
  | nil =>
    cases h
    exact .nil
  | @cons r p rs ps hp _ ih =>
    unfold Pki.crlEntries at h
    cases hfirst : Pki.crlEntry now p with
    | error err =>
      rw [hfirst] at h
      cases h
    | ok first =>
    cases hmore : Pki.crlEntries now ps with
    | error err =>
      rw [hfirst, hmore] at h
      cases h
    | ok more =>
    rw [hfirst, hmore] at h
    cases h
    exact .cons (enters_of_crlEntry hp hfirst) (ih hmore)

theorem serial_of_enters {rs : List Recorded} {es : List CRLEntry}
    (h : List.Forall₂ Enters rs es) (n : Int) :
    n ∈ es.map (·.serialNumber) ↔ ∃ r ∈ rs, serialFromHex r.serialHex = some n := by
  induction h with
  | nil => simp
  | @cons r e rs es he _ ih =>
    rw [List.map_cons, List.mem_cons, ih, List.exists_mem_cons_iff, he.serial, Option.some_inj,
      eq_comm]

end Entries

/-! ## One request -/

section Request

variable [Go.Runtime]

/-- What a request has done when it signs list `number` of authority `caID`: it has read both tables
and then taken the number, and since then it has looked at the clock. -/
def Drawn (caID number : Nat) (entries : List CRLEntry) (q : Trace sig) : Prop :=
  ∃ q₁ q₂ q₃ rows revs t, q₁ ++ [⟨.ca (.revokedCertificates caID), .ok rows⟩] <+: q₂ ∧
    q₂ ++ [⟨.ca (.caRevocations caID), .ok revs⟩] <+: q₃ ∧
    q = q₃ ++ [⟨.ca (.nextCRLNumber caID), .ok (some number)⟩] ++ [⟨.host .now, t⟩] ∧
    List.Forall₂ Enters (rows.map recordedCertificate ++ revs.map recordedAuthority) entries

/-- A request signs only the list that it has drawn. -/
def SignsDrawn (caID : Nat) (q : Trace sig) (s : Stmt) : Prop :=
  ∀ issuer key number this next entries,
    s = .host (.createRevocationList issuer key number this next entries) →
      Drawn caID number entries q

theorem signsDrawn_of_within {ks : List Effect} (h : .signCRL ∉ ks) {caID : Nat} {q : Trace sig}
    {s : Stmt} (hs : Within ks s) : SignsDrawn caID q s := by
  rintro issuer key number this next entries rfl
  exact absurd hs h

/-- **GenerateCRL** signs what it has drawn. -/
theorem generateCRL_drawn (s : Ca.Service) (caID : Nat) (actor : String) :
    (s.generateCRL caID actor).Traced (SignsDrawn caID) (fun _ _ => True) [] := by
  have hallow (q : Trace sig) : Allows [.nextCRLNumber] (SignsDrawn caID) q :=
    fun q' s _ hs => signsDrawn_of_within (by decide) hs
  refine ((hallow _).reads.traced (getCA_uses caID)).bind fun q₁ rec _ _ => ?_
  refine (traced_failIf fun _ => trivial).bind fun q₂ _ _ (_ : True) => ?_
  refine (traced_failIf fun _ => trivial).bind fun q₃ _ _ (_ : True) => ?_
  refine traced_ofExcept_eq.bind fun q₄ issuerCert _ _ => ?_
  refine traced_ofExcept_eq.bind fun q₅ issuerKey _ _ => ?_
  refine Traced.bind (ca_traced (hallow q₅ _ (.ca (.revokedCertificates caID)) List.prefix_rfl
    trivial)) fun q₆ rows _ hq₆ => ?_
  refine (certEntries_prepares (hallow q₆).reads rows).bind fun q₇ es hq₇ hes => ?_
  refine Traced.bind (ca_traced (hallow q₇ _ (.ca (.caRevocations caID)) List.prefix_rfl trivial))
    fun q₈ revs _ hq₈ => ?_
  have hnumber : (nextCRLNumber caID).Traced (SignsDrawn caID)
      (fun q' n => q' = q₈ ++ [⟨.ca (.nextCRLNumber caID), .ok (some n)⟩]) q₈ :=
    row_traced (ca_traced (hallow q₈ _ (.ca (.nextCRLNumber caID)) List.prefix_rfl
      (List.mem_singleton_self _)))
  refine hnumber.bind fun q₉ number _ hq₉ => ?_
  have hcreate (p : Pki.CRLParams) (hn : p.number = number)
      (hp : p.revoked = es ++ revs.map Ca.caEntry) :
      (Pki.createCRL p).Traced (SignsDrawn caID) (fun _ _ => True) q₉ := by
    have hclock : (now : Handler Go.Error Go.Time).Traced (SignsDrawn caID)
        (fun q' t => q' = q₉ ++ [⟨.host .now, t⟩]) q₉ := host_traced (hallow q₉).now
    refine hclock.bind fun q t _ hq => ?_
    refine traced_ofExcept_eq.bind fun q' signed _ ⟨hq', hsigned⟩ => ?_
    have hsign : SignsDrawn caID q' (.host (.createRevocationList p.issuer p.issuerKey p.number t
        (t.addDays (Pki.crlValidity p.validDays)) signed)) := by
      intro issuer key n this next entries heq
      cases heq
      refine ⟨q₅, q₇, q₈, rows, revs, t, hq₆ ▸ hq₇, hq₈ ▸ List.prefix_rfl, ?_, ?_⟩
      · rw [hq', hq, hq₉, hn]
      · rw [hp] at hsigned
        exact enters_of_crlEntries (List.rel_append hes (caEntries_prepare revs)) hsigned
    exact Traced.mapError ((hostCall_saw (host_saw hsign)).mono fun _ _ _ => trivial)
  refine (hcreate _ rfl rfl).bind fun q crl _ _ => ?_
  exact ((hallow _).reads.traced (audit_uses s _ _ _ _)).bind fun _ _ _ _ => traced_pure trivial

/-- What a call signs: its request is for a list, and it has drawn it. -/
def CallSigns (c : Call) (q : Trace sig) (s : Stmt) : Prop :=
  ∀ issuer key number this next entries,
    s = .host (.createRevocationList issuer key number this next entries) →
      ∃ caID actor, c.request = .generateCRL caID actor ∧ Drawn caID number entries q

theorem serve_callSigns (c : Call) : c.serve.Traced (CallSigns c) (fun _ _ => True) [] := by
  by_cases h : Effect.signCRL ∈ c.request.effects
  · obtain ⟨acme, request⟩ := c
    cases request with
    | generateCRL caID actor =>
      refine (replying_traced (generateCRL_drawn acme.caSvc caID actor)).mono ?_ fun _ _ => id
      exact fun q s hs issuer key number this next entries heq =>
        ⟨caID, actor, rfl, hs issuer key number this next entries heq⟩
    | _ => simp [Request.effects] at h
  · refine (serve_uses c).traced.mono ?_ fun _ _ _ => trivial
    rintro q s hs issuer key number this next entries rfl
    exact absurd hs h

end Request

/-! ## The tables -/

/-- Authority `caID` has a revoked certificate with this serial. -/
def RevokedUnder [Go.Runtime] (caID : Nat) (n : Int) (t : CaTables) : Prop :=
  ∃ c ∈ t.certificates.rows, c.caID = caID ∧ c.status = .revoked ∧
    serialFromHex c.serialHex = some n

/-- Authority `caID` has retired an authority with this serial. -/
def RetiredUnder [Go.Runtime] (caID : Nat) (n : Int) (t : CaTables) : Prop :=
  ∃ r ∈ t.caRevocations.rows, r.caID = caID ∧ serialFromHex r.serialHex = some n

/-- A statement takes the serial off: it releases or deletes a certificate that has it, or it
deletes the authority. -/
def Lifts [Go.Runtime] (caID : Nat) (n : Int) (t : CaTables) (s : adminSig.Stmt) : Prop :=
  s = .inr (.deleteCA caID) ∨ ∃ c ∈ t.certificates.rows,
    (s = .inl (.ca (.unrevokeCertificate c.id)) ∨ s = .inr (.deleteCertificate c.id)) ∧
      c.caID = caID ∧ serialFromHex c.serialHex = some n

section Step

variable [Go.Runtime] {e : Env} {w w' : World} {caID : Nat} {n : Int}

/-- **What takes a revoked certificate off the list.** -/
theorem revokedUnder_step {s : adminSig.Stmt} {x : adminSig.Ans s}
    (h : adminExec e w s = some (x, w')) (hw : RevokedUnder caID n w.ca) :
    RevokedUnder caID n w'.ca ∨ Lifts caID n w.ca s := by
  obtain ⟨c, hc, hca, hstatus, hserial⟩ := hw
  cases s with
  | inl s =>
    have hstep := cert_step (exec_of_admin h) c.id
    rw [show w.ca.certificates.get? c.id = some c from Table.get?_of_mem hc] at hstep
    have hmem : ∀ r, w'.ca.certificates.get? c.id = some r → r ∈ w'.ca.certificates.rows :=
      fun r => Table.mem_of_get?
    generalize hid : c.id = i, hbefore : some c = before,
      w'.ca.certificates.get? c.id = after at hstep hmem
    cases hstep with
    | same => exact .inl ⟨c, hmem c hbefore.symm, hca, hstatus, hserial⟩
    | inserted r hcommits => cases hbefore
    | revoked reason r hcommits hr =>
      obtain rfl := Option.some.inj hbefore
      exact absurd hstatus hr
    | unrevoked r hcommits => exact .inr (.inr ⟨c, hc, .inl (hid ▸ rfl), hca, hserial⟩)
    | renewed p r hcommits =>
      obtain rfl := Option.some.inj hbefore
      exact .inl ⟨_, hmem _ rfl, hca, hstatus, hserial⟩
  | inr s =>
    cases s with
    | deleteCA id =>
      rcases deleteCA_cases h with rfl | ⟨-, rfl⟩
      · exact .inl ⟨c, hc, hca, hstatus, hserial⟩
      · by_cases hid : id = caID
        · exact .inr (.inl (hid ▸ rfl))
        · refine .inl ⟨c, Table.mem_delete.mpr ⟨hc, ?_⟩, hca, hstatus, hserial⟩
          exact beq_eq_false_iff_ne.mpr fun heq => hid (heq.symm.trans hca)
    | deleteCertificate id =>
      rcases deleteCertificate_cases h with rfl | rfl
      · exact .inl ⟨c, hc, hca, hstatus, hserial⟩
      · by_cases hid : c.id = id
        · exact .inr (.inr ⟨c, hc, .inr (hid ▸ rfl), hca, hserial⟩)
        · refine .inl ⟨c, Table.mem_delete.mpr ⟨hc, ?_⟩, hca, hstatus, hserial⟩
          exact beq_eq_false_iff_ne.mpr hid

/-- **What takes a retired authority off the list.** -/
theorem retiredUnder_step {s : adminSig.Stmt} {x : adminSig.Ans s}
    (h : adminExec e w s = some (x, w')) (hw : RetiredUnder caID n w.ca) :
    RetiredUnder caID n w'.ca ∨ Lifts caID n w.ca s := by
  cases s with
  | inl s =>
    refine .inl (exec_ca_induction (P := fun _ t t' => RetiredUnder caID n t →
      RetiredUnder caID n t') (fun _ _ => id) ?_ (exec_of_admin h) hw)
    intro s t _ ht
    have hsame {t' : CaTables} (hrows : t'.caRevocations = t.caRevocations) :
        RetiredUnder caID n t' := by
      unfold RetiredUnder
      rw [hrows]
      exact ht
    cases s with
    | insertCA c =>
      simp only [CaTables.exec]
      split <;> exact hsame rfl
    | completeCA id c =>
      simp only [CaTables.exec]
      split <;> exact hsame rfl
    | insertCertificate c =>
      simp only [CaTables.exec]
      split <;> exact hsame rfl
    | recordCARevocation issuer serial reason =>
      obtain ⟨r, hr, hca, hserial⟩ := ht
      simp only [CaTables.exec, CaTables.recordCARevocation]
      split
      · refine ⟨if r.caID == issuer && r.serialHex == serial then
          { r with revokedAt := e.now, reason } else r, ?_, ?_⟩
        · exact List.mem_map.mpr ⟨r, hr, rfl⟩
        · split
          · exact ⟨hca, hserial⟩
          · exact ⟨hca, hserial⟩
      · exact ⟨r, Table.mem_insert.mpr (.inl hr), hca, hserial⟩
    | _ => exact hsame rfl
  | inr s =>
    obtain ⟨r, hr, hca, hserial⟩ := hw
    cases s with
    | deleteCA id =>
      rcases deleteCA_cases h with rfl | ⟨-, rfl⟩
      · exact .inl ⟨r, hr, hca, hserial⟩
      · by_cases hid : id = caID
        · exact .inr (.inl (hid ▸ rfl))
        · refine .inl ⟨r, Table.mem_delete.mpr ⟨hr, ?_⟩, hca, hserial⟩
          exact beq_eq_false_iff_ne.mpr fun heq => hid (heq.symm.trans hca)
    | deleteCertificate id =>
      rcases deleteCertificate_cases h with rfl | rfl
      · exact .inl ⟨r, hr, hca, hserial⟩
      · exact .inl ⟨r, hr, hca, hserial⟩

/-- The counter of a row has not gone back. -/
def CountsOn (r r' : CA) : Prop := r.crlNumber ≤ r'.crlNumber

omit [Go.Runtime] in
theorem CountsOn.refl (r : CA) : CountsOn r r := Nat.le_refl _

omit [Go.Runtime] in
theorem CountsOn.trans (r r' r'' : CA) (h : CountsOn r r') (h' : CountsOn r' r'') :
    CountsOn r r'' := Nat.le_trans h h'

/-- **The counters of the lists only grow.** -/
theorem counters_step {s : adminSig.Stmt} {x : adminSig.Ans s}
    (h : adminExec e w s = some (x, w')) : w.ca.cas.Follows CountsOn w'.ca.cas := by
  cases s with
  | inl s =>
    refine exec_ca_induction (P := fun _ t t' => t.cas.Follows CountsOn t'.cas)
      (fun _ _ => .refl CountsOn.refl _) ?_ (exec_of_admin h)
    intro s t _
    cases s with
    | insertCA c =>
      simp only [CaTables.exec]
      split
      · exact .refl CountsOn.refl _
      · exact Table.follows_insert CountsOn.refl _ (fun id => { c with id }) fun _ => rfl
    | setDefaultCA id =>
      simp only [CaTables.exec, CaTables.updateCas]
      exact Table.follows_update CountsOn.refl _ _ _ fun _ => Nat.le_refl _
    | setCAStatus id status =>
      simp only [CaTables.exec, CaTables.updateCas]
      exact Table.follows_update CountsOn.refl _ _ _ fun _ => Nat.le_refl _
    | nextCRLNumber id =>
      simp only [CaTables.exec, CaTables.updateCas]
      exact Table.follows_update CountsOn.refl _ _ _ fun _ => Nat.le_succ _
    | completeCA id c =>
      simp only [CaTables.exec, CaTables.updateCas]
      split
      · exact .refl CountsOn.refl _
      · exact Table.follows_update (g := (·.completed c)) CountsOn.refl _ _ (fun _ => rfl)
          fun _ => Nat.le_refl _
    | insertCertificate c =>
      simp only [CaTables.exec]
      split <;> exact .refl CountsOn.refl _
    | _ => exact .refl CountsOn.refl _
  | inr s =>
    rcases deleteExec_cases h with rfl | ⟨_, _, _, rfl⟩
    · exact .refl CountsOn.refl _
    · exact Table.follows_delete CountsOn.refl _ _

/-- A number that was taken is what the counter says from then on. -/
theorem number_taken {x : Nat} (h : exec e w (.ca (.nextCRLNumber caID)) = some (.ok (some x), w')) :
    ∃ r r', w.ca.cas.get? caID = some r ∧ w'.ca.cas.get? caID = some r' ∧ x = r.crlNumber + 1 ∧
      x = r'.crlNumber := by
  obtain ⟨_, hx, rfl⟩ := exec_ca h
  obtain ⟨hans, hdone⟩ := Fault.apply_ok hx.symm
  obtain ⟨r, hr, rfl⟩ := Option.map_eq_some_iff.mp (Except.ok.inj hans)
  refine ⟨r, { r with crlNumber := r.crlNumber + 1, lastCRLAt := some e.now }, hr, ?_, rfl, rfl⟩
  show (e.fault.apply w.ca _).2.cas.get? caID = _
  rw [hdone]
  refine (Table.get?_update w.ca.cas (·.id == caID) (fun c =>
    { c with crlNumber := c.crlNumber + 1, lastCRLAt := some e.now }) (fun _ => rfl) caID).trans ?_
  have hid : r.id = caID := Table.key_of_get? hr
  rw [hr, Option.map_some, if_pos (beq_iff_eq.mpr hid)]

end Step

/-! ## Runs -/

section Run

variable [Go.Runtime] (w : World) (ts : List Task) (moves : Pool.Schedule Env)

/-- A list of a run: the task that made it, the authority it is of, and the moves at which the task
read the certificates and the retired authorities, took the number and signed. -/
structure MadeList where
  task : Nat
  caID : Nat
  certificates : Nat
  authorities : Nat
  numbered : Nat
  signed : Nat
  crl : CRL

/-- What the tables hold as revoked where the list was read. -/
def MadeList.recorded (L : MadeList) : List Recorded :=
  let certificates := (tasksUpto w ts moves L.certificates).world.ca.certificates
  let caRevocations := (tasksUpto w ts moves L.authorities).world.ca.caRevocations
  ((certificates.rows.filter fun c => c.caID == L.caID && c.status == .revoked).insertionSort
      fun a b => a.revokedAt.getD Go.Time.zero ≤ b.revokedAt.getD Go.Time.zero).map
    recordedCertificate ++
  ((caRevocations.rows.filter (·.caID == L.caID)).insertionSort
      fun a b => a.revokedAt ≤ b.revokedAt).map recordedAuthority

/-- A request for a list made this one. -/
structure Made (L : MadeList) : Prop where
  request : ∃ replica actor, ts[L.task]? = some (.call ⟨replica, .generateCRL L.caID actor⟩)
  read : L.certificates < L.authorities
  number : L.authorities < L.numbered
  sign : L.numbered < L.signed
  /-- The number is the one that the task took. -/
  took : ∃ e, Pool.AskedAt adminExec (tasks w ts) moves L.numbered L.task e
    (.inl (.ca (.nextCRLNumber L.caID))) (.ok (some L.crl.number))
  /-- From then on the task has looked at the clock. -/
  waited : ∀ i e s x, L.numbered < i → i < L.signed →
    Pool.AskedAt adminExec (tasks w ts) moves i L.task e s x → s = .inl (.host .now)
  signs : ∃ e issuer key this next, Pool.AskedAt adminExec (tasks w ts) moves L.signed L.task e
    (.inl (.host (.createRevocationList issuer key L.crl.number this next L.crl.entries)))
    (.ok L.crl)
  /-- It says what the tables held when they were read, in that order. -/
  entries : List.Forall₂ Enters (L.recorded w ts moves) L.crl.entries

/-- The task of the list read the two tables at these moves. -/
structure ReadAt (L : MadeList) : Prop where
  certificates : ∃ e rows, Pool.AskedAt adminExec (tasks w ts) moves L.certificates L.task e
    (.inl (.ca (.revokedCertificates L.caID))) (.ok rows)
  authorities : ∃ e revs, Pool.AskedAt adminExec (tasks w ts) moves L.authorities L.task e
    (.inl (.ca (.caRevocations L.caID))) (.ok revs)

/-- Between two moves something takes the serial off the lists of the authority. -/
def Lifted (caID : Nat) (n : Int) (i j : Nat) : Prop :=
  ∃ m t e s x, i ≤ m ∧ m < j ∧ Pool.AskedAt adminExec (tasks w ts) moves m t e s x ∧
    Lifts caID n (tasksUpto w ts moves m).world.ca s

/-- What holds of the revocation lists of a run. -/
structure ListsSound : Prop where
  /-- Every list that was signed was made in this way. -/
  made : ∀ m t e issuer key number this next entries crl,
    Pool.AskedAt adminExec (tasks w ts) moves m t e
      (.inl (.host (.createRevocationList issuer key number this next entries))) (.ok crl) →
    ∃ L, Made w ts moves L ∧ L.task = t ∧ L.signed = m ∧ L.crl = crl
  /-- The numbers of an authority come in the order in which they are taken. -/
  numbers : ∀ L L', Made w ts moves L → Made w ts moves L' → L.caID = L'.caID →
    L.numbered < L'.numbered → L.crl.number < L'.crl.number
  /-- No two lists of an authority have one number. -/
  distinct : ∀ L L', Made w ts moves L → Made w ts moves L' → L.caID = L'.caID →
    L.crl.number = L'.crl.number → L.signed = L'.signed
  /-- A serial is on every list that is read later, unless it has been taken off. -/
  kept : ∀ L L', Made w ts moves L → Made w ts moves L' → L.caID = L'.caID →
    L.certificates ≤ L'.certificates → L.authorities ≤ L'.authorities →
    ∀ n ∈ L.crl.serials, n ∈ L'.crl.serials ∨
      Lifted w ts moves L.caID n L.certificates L'.authorities

variable {w ts moves}

/-- What every statement keeps but those that take the serial off is there until one of them. -/
theorem stays_or_lifted {P : CaTables → Prop} {caID : Nat} {n : Int}
    (step : ∀ (e : Env) (w w' : World) (s : adminSig.Stmt) (x : adminSig.Ans s),
      adminExec e w s = some (x, w') → P w.ca → P w'.ca ∨ Lifts caID n w.ca s)
    {i j : Nat} (hij : i ≤ j) (hj : j ≤ moves.length) (h : P (tasksUpto w ts moves i).world.ca) :
    P (tasksUpto w ts moves j).world.ca ∨ Lifted w ts moves caID n i j := by
  induction hij with
  | refl => exact .inl h
  | @step j hij ih =>
    rcases ih (by omega) with hP | ⟨m, t, e, s, x, him, hmj, hasked, hlifts⟩
    · rcases Pool.upto_asked adminExec (tasks w ts) hj with hs | ⟨s, x, hasked, _⟩
      · left
        show P (Pool.upto adminExec _ moves (j + 1)).world.ca
        rw [hs]
        exact hP
      · rcases step _ _ _ s x hasked.exec hP with hP' | hlifts
        · exact .inl hP'
        · exact .inr ⟨j, _, _, s, x, hij, Nat.lt_succ_self j, hasked, hlifts⟩
    · exact .inr ⟨m, t, e, s, x, him, by omega, hasked, hlifts⟩

theorem lifted_mono {caID : Nat} {n : Int} {i i' j j' : Nat} (hi : i' ≤ i) (hj : j ≤ j')
    (h : Lifted w ts moves caID n i j) : Lifted w ts moves caID n i' j' := by
  obtain ⟨m, t, e, s, x, him, hmj, h⟩ := h
  exact ⟨m, t, e, s, x, by omega, by omega, h⟩

/-- What a list carries. -/
theorem serials_of_made {L : MadeList} (hL : Made w ts moves L) (n : Int) : n ∈ L.crl.serials ↔
    RevokedUnder L.caID n (tasksUpto w ts moves L.certificates).world.ca ∨
      RetiredUnder L.caID n (tasksUpto w ts moves L.authorities).world.ca := by
  refine (serial_of_enters hL.entries n).trans ?_
  unfold MadeList.recorded
  constructor
  · rintro ⟨r, hr, hserial⟩
    rcases List.mem_append.mp hr with hr | hr
    · obtain ⟨c, hc, rfl⟩ := List.mem_map.mp hr
      obtain ⟨hmem, hselected⟩ := List.mem_filter.mp ((List.mem_insertionSort _).mp hc)
      simp only [Bool.and_eq_true, beq_iff_eq] at hselected
      exact .inl ⟨c, hmem, hselected.1, hselected.2, hserial⟩
    · obtain ⟨c, hc, rfl⟩ := List.mem_map.mp hr
      obtain ⟨hmem, hselected⟩ := List.mem_filter.mp ((List.mem_insertionSort _).mp hc)
      exact .inr ⟨c, hmem, beq_iff_eq.mp hselected, hserial⟩
  · rintro (⟨c, hmem, hca, hstatus, hserial⟩ | ⟨r, hmem, hca, hserial⟩)
    · refine ⟨recordedCertificate c, List.mem_append_left _ (List.mem_map_of_mem ?_), hserial⟩
      refine (List.mem_insertionSort _).mpr (List.mem_filter.mpr ⟨hmem, ?_⟩)
      simp only [Bool.and_eq_true, beq_iff_eq]
      exact ⟨hca, hstatus⟩
    · refine ⟨recordedAuthority r, List.mem_append_right _ (List.mem_map_of_mem ?_), hserial⟩
      exact (List.mem_insertionSort _).mpr (List.mem_filter.mpr ⟨hmem, beq_iff_eq.mpr hca⟩)

theorem counters_upto {i j : Nat} (hij : i ≤ j) (hj : j ≤ moves.length) :
    (tasksUpto w ts moves i).world.ca.cas.Follows CountsOn
      (tasksUpto w ts moves j).world.ca.cas :=
  Pool.upto_related (R := fun w w' : World => w.ca.cas.Follows CountsOn w'.ca.cas)
    (fun _ => .refl CountsOn.refl _) (fun _ _ _ h h' => h.trans CountsOn.trans h')
    (fun _ _ _ _ _ => counters_step) _ hij hj

/-- A number that is taken later is bigger. -/
theorem number_lt {L L' : MadeList} (hL : Made w ts moves L) (hL' : Made w ts moves L')
    (hca : L.caID = L'.caID) (hlt : L.numbered < L'.numbered) : L.crl.number < L'.crl.number := by
  obtain ⟨e, hasked⟩ := hL.took
  obtain ⟨e', hasked'⟩ := hL'.took
  have hm : L'.numbered ≤ moves.length := (List.getElem?_eq_some_iff.mp hasked'.move).1.le
  obtain ⟨-, r, -, hr, -, hnumber⟩ := number_taken (exec_of_admin hasked.exec)
  obtain ⟨r', -, hr', -, hnumber', -⟩ := number_taken (exec_of_admin hasked'.exec)
  have hfollows : (tasksUpto w ts moves (L.numbered + 1)).world.ca.cas.Follows CountsOn
      (tasksUpto w ts moves L'.numbered).world.ca.cas := counters_upto hlt hm
  have hrel : CountsOn r r' := hfollows.related hr (hca ▸ hr')
  unfold CountsOn at hrel
  omega

/-- Two lists of an authority with one number are one list. -/
theorem signed_eq {L L' : MadeList} (hL : Made w ts moves L) (hL' : Made w ts moves L')
    (hca : L.caID = L'.caID) (hnumber : L.crl.number = L'.crl.number) : L.signed = L'.signed := by
  have hnumbered : L.numbered = L'.numbered := by
    rcases Nat.lt_trichotomy L.numbered L'.numbered with hlt | heq | hlt
    · exact absurd hnumber (number_lt hL hL' hca hlt).ne
    · exact heq
    · exact absurd hnumber (number_lt hL' hL hca.symm hlt).ne'
  have htask : L.task = L'.task := by
    obtain ⟨e, hasked⟩ := hL.took
    obtain ⟨e', hasked'⟩ := hL'.took
    rw [hnumbered] at hasked
    exact (hasked.stmt_unique hasked').1
  -- a list that is signed first would be something else than the clock to the other one
  have hnot {L L' : MadeList} (hL : Made w ts moves L) (hL' : Made w ts moves L')
      (htask : L.task = L'.task) (hnumbered : L.numbered = L'.numbered) :
      ¬ L.signed < L'.signed := by
    intro hlt
    obtain ⟨e, issuer, key, this, next, hasked⟩ := hL.signs
    rw [htask] at hasked
    have heq := hL'.waited L.signed e _ _ (hnumbered ▸ hL.sign) hlt hasked
    cases heq
  have h₁ := hnot hL hL' htask hnumbered
  have h₂ := hnot hL' hL htask.symm hnumbered.symm
  omega

/-- What was signed is what was asked for. -/
theorem signed_of_exec {e : Env} {w w' : World} {issuer : Pki.X509} {key : Pki.PrivateKey}
    {number : Nat} {this next : Go.Time} {entries : List CRLEntry} {crl : CRL}
    (h : exec e w (.host (.createRevocationList issuer key number this next entries)) =
      some (.ok crl, w')) : crl.number = number ∧ crl.entries = entries := by
  obtain ⟨hx, -⟩ := Prod.mk.inj (Option.some.inj (exec_host h).2)
  have hcreated := Fault.answer_ok hx
  unfold Pki.x509CreateRevocationList at hcreated
  split at hcreated
  · cases hcreated
  split at hcreated
  · cases hcreated
  split at hcreated
  · cases hcreated
  split at hcreated
  · cases hcreated
  · cases hcreated
    exact ⟨rfl, rfl⟩

/-- **Every list is made in this way.** -/
theorem made_of_signed {m t : Nat} {e : Env} {issuer : Pki.X509} {key : Pki.PrivateKey}
    {number : Nat} {this next : Go.Time} {entries : List CRLEntry} {crl : CRL}
    (hasked : Pool.AskedAt adminExec (tasks w ts) moves m t e
      (.inl (.host (.createRevocationList issuer key number this next entries))) (.ok crl)) :
    ∃ L, Made w ts moves L ∧ ReadAt w ts moves L ∧ L.task = t ∧ L.signed = m ∧ L.crl = crl := by
  have hm : m ≤ moves.length := (List.getElem?_eq_some_iff.mp hasked.move).1.le
  obtain ⟨task, htask, hmay⟩ := taskMay_next serve_callSigns hasked.next
  obtain ⟨rfl, rfl⟩ := signed_of_exec (exec_of_admin hasked.exec)
  cases task with
  | deleteCA | deleteCertificate => cases hmay
  | call c =>
    obtain ⟨_, ⟨⟩, hsigns⟩ := hmay
    obtain ⟨caID, actor, hrequest, q₁, q₂, q₃, rows, revs, now, hq₂, hq₃, hq, henters⟩ :=
      hsigns _ _ _ _ _ _ rfl
    obtain ⟨replica, request⟩ := c
    obtain rfl : request = .generateCRL caID actor := hrequest
    obtain ⟨k, e₃, hk, hnumber, hown₃⟩ := task_asked (i := m) (t := t) hm
      (hq ▸ List.prefix_append _ _)
    obtain ⟨j, e₂, hj, hrevs, hown₂⟩ := task_asked (hk.le.trans hm) (hown₃.symm ▸ hq₃)
    obtain ⟨i, e₁, hi, hrows, -⟩ := task_asked (hj.le.trans (hk.le.trans hm)) (hown₂.symm ▸ hq₂)
    refine ⟨⟨t, caID, i, j, k, m, crl⟩, ⟨⟨replica, actor, htask⟩, hi, hj, hk, ⟨e₃, hnumber⟩, ?_,
      ⟨e, issuer, key, this, next, hasked⟩, ?_⟩, ⟨⟨e₁, rows, hrows⟩, ⟨e₂, revs, hrevs⟩⟩, rfl, rfl,
      rfl⟩
    · intro i' e' s' x' hki' him' hasked'
      obtain ⟨task, htask', hmay'⟩ := taskMay_next serve_callSigns hasked'.next
      obtain rfl := Option.some.inj (htask.symm.trans htask')
      obtain ⟨s', rfl, -⟩ := hmay'
      have hfirst := leftTrace_upto_mono w ts moves t (Nat.succ_le_of_lt hki')
      have hlast := leftTrace_upto_mono w ts moves t (Nat.succ_le_of_lt him')
      rw [leftTrace_asked hnumber, hown₃] at hfirst
      rw [leftTrace_asked hasked', hq] at hlast
      obtain ⟨-, heq⟩ := Interleave.eq_of_prefixes hfirst hlast
      cases heq
      rfl
    · obtain ⟨_, hxrows, _⟩ := exec_ca (exec_of_admin hrows.exec)
      obtain rfl := Except.ok.inj (Fault.apply_ok hxrows.symm).1
      obtain ⟨_, hxrevs, _⟩ := exec_ca (exec_of_admin hrevs.exec)
      obtain rfl := Except.ok.inj (Fault.apply_ok hxrevs.symm).1
      exact henters

/-- **The lists of a run** over any database, whatever is requested and deleted and in whatever
order: their numbers come in the order in which they are taken, and no serial is lost between two
reads unless it is released or deleted. -/
theorem lists_sound (w : World) (ts : List Task) (moves : Pool.Schedule Env) :
    ListsSound w ts moves where
  made := by
    intro m t e issuer key number this next entries crl hasked
    obtain ⟨L, hL, _, hsame⟩ := made_of_signed hasked
    exact ⟨L, hL, hsame⟩
  numbers := fun _ _ hL hL' => number_lt hL hL'
  distinct := fun _ _ hL hL' => signed_eq hL hL'
  kept := by
    intro L L' hL hL' hca hcerts hauths n hn
    obtain ⟨e, hasked⟩ := hL'.took
    have hm : L'.numbered ≤ moves.length := (List.getElem?_eq_some_iff.mp hasked.move).1.le
    have hread := hL.read
    have hread' := hL'.read
    have hnumber := hL'.number
    rcases (serials_of_made hL n).mp hn with hrevoked | hretired
    · rcases stays_or_lifted (fun _ _ _ _ _ => revokedUnder_step) hcerts (by omega) hrevoked with
        hstays | hlifted
      · exact .inl ((serials_of_made hL' n).mpr (.inl (hca ▸ hstays)))
      · exact .inr (lifted_mono (Nat.le_refl _) hread'.le hlifted)
    · rcases stays_or_lifted (fun _ _ _ _ _ => retiredUnder_step) hauths (by omega) hretired with
        hstays | hlifted
      · exact .inl ((serials_of_made hL' n).mpr (.inr (hca ▸ hstays)))
      · exact .inr (lifted_mono hread.le (Nat.le_refl _) hlifted)

end Run

end Goca
