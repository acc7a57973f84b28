import Goca.Laws.ListNumbers
import Goca.Laws.Samples

/-!
# What a newer revocation list forgets

A list with a bigger number is to say all that the smaller ones say. `GenerateCRL` reads both tables
before it takes the number, so a request that is overtaken in between signs the bigger number over
the older reads, and a revocation that came between the two reads is on the smaller list only.

`newer_lists_keep_iff` says that nothing else loses a serial: in a run that releases and deletes
nothing, the lists keep what smaller ones say exactly when no revocation comes between the reads of
a request and those of another that takes its number before it.
-/

set_option autoImplicit false

namespace Goca

open Goca.Pki (CRL CRLEntry serialFromHex)
open Goca.Store
open Interleave (Pool)
open Sql (Table)

/-! ## What puts a serial on record -/

/-- A statement revokes a certificate of the authority that has the serial, or stores one that is
revoked, which no request does. -/
def Revokes [Go.Runtime] (caID : Nat) (n : Int) (t : CaTables) (s : adminSig.Stmt) : Prop :=
  (∃ c ∈ t.certificates.rows, ∃ reason, s = .inl (.ca (.revokeCertificate c.id reason)) ∧
      c.caID = caID ∧ serialFromHex c.serialHex = some n) ∨
    ∃ c, s = .inl (.ca (.insertCertificate c)) ∧ c.status = .revoked ∧ c.caID = caID ∧
      serialFromHex c.serialHex = some n

/-- A statement records that the authority retires one that has the serial. -/
def Retires [Go.Runtime] (caID : Nat) (n : Int) (s : adminSig.Stmt) : Prop :=
  ∃ serial reason, s = .inl (.ca (.recordCARevocation caID serial reason)) ∧
    serialFromHex serial = some n

section Step

variable [Go.Runtime] {e : Env} {w w' : World} {caID : Nat} {n : Int}

/-- **What puts a certificate on the list.** -/
theorem revokes_of_step {s : adminSig.Stmt} {x : adminSig.Ans s}
    (h : adminExec e w s = some (x, w')) (hw : RevokedUnder caID n w'.ca) :
    RevokedUnder caID n w.ca ∨ Revokes caID n w.ca s := by
  obtain ⟨c, hc, hca, hstatus, hserial⟩ := hw
  cases s with
  | inl s =>
    have hstep := cert_step (exec_of_admin h) c.id
    rw [show w'.ca.certificates.get? c.id = some c from Table.get?_of_mem hc] at hstep
    have hmem : ∀ r, w.ca.certificates.get? c.id = some r →
        r ∈ w.ca.certificates.rows ∧ r.id = c.id :=
      fun r hr => ⟨Table.mem_of_get? hr, Table.key_of_get? hr⟩
    generalize hid : c.id = i, w.ca.certificates.get? c.id = before, hafter : some c = after
      at hstep hmem
    cases hstep with
    | same => exact .inl ⟨c, (hmem c hafter.symm).1, hca, hstatus, hserial⟩
    | inserted r hcommits =>
      obtain rfl := Option.some.inj hafter
      exact .inr (.inr ⟨r, rfl, hstatus, hca, hserial⟩)
    | revoked reason r hcommits hr =>
      obtain rfl := Option.some.inj hafter
      obtain ⟨hrow, hkey⟩ := hmem r rfl
      exact .inr (.inl ⟨r, hrow, reason, by rw [hkey], hca, hserial⟩)
    | unrevoked r hcommits =>
      obtain rfl := Option.some.inj hafter
      cases hstatus
    | renewed p r hcommits =>
      obtain rfl := Option.some.inj hafter
      exact .inl ⟨r, (hmem r rfl).1, hca, hstatus, hserial⟩
  | inr s =>
    refine .inl ⟨c, ?_, hca, hstatus, hserial⟩
    cases s with
    | deleteCA id =>
      rcases deleteCA_cases h with rfl | ⟨-, rfl⟩
      · exact hc
      · exact (Table.mem_delete.mp hc).1
    | deleteCertificate id =>
      rcases deleteCertificate_cases h with rfl | rfl
      · exact hc
      · exact (Table.mem_delete.mp hc).1

/-- The upsert puts one serial on the list of one authority. -/
theorem retired_of_record {t : CaTables} {issuer : Nat} {serial : String} {now : Go.Time}
    {reason : Int} (h : RetiredUnder caID n (t.recordCARevocation issuer serial now reason)) :
    RetiredUnder caID n t ∨ issuer = caID ∧ serialFromHex serial = some n := by
  obtain ⟨r, hr, hca, hserial⟩ := h
  unfold CaTables.recordCARevocation at hr
  simp only at hr
  split at hr
  · obtain ⟨r₀, hr₀, rfl⟩ := List.mem_map.mp hr
    refine .inl ⟨r₀, hr₀, ?_⟩
    split at hca <;> split at hserial <;> exact ⟨hca, hserial⟩
  · rcases Table.mem_insert.mp hr with hr | rfl
    · exact .inl ⟨r, hr, hca, hserial⟩
    · exact .inr ⟨hca, hserial⟩

/-- **What puts an authority on the list.** -/
theorem retires_of_step {s : adminSig.Stmt} {x : adminSig.Ans s}
    (h : adminExec e w s = some (x, w')) (hw : RetiredUnder caID n w'.ca) :
    RetiredUnder caID n w.ca ∨ Retires caID n s := by
  cases s with
  | inl s =>
    refine exec_ca_induction (P := fun s t t' => RetiredUnder caID n t' →
      RetiredUnder caID n t ∨ Retires caID n (.inl s)) (fun _ _ => .inl) ?_ (exec_of_admin h) hw
    intro s t _ ht
    have hsame {t' : CaTables} (hrows : t'.caRevocations = t.caRevocations)
        (ht : RetiredUnder caID n t') : RetiredUnder caID n t ∨ Retires caID n (.inl (.ca s)) := by
      unfold RetiredUnder at ht
      rw [hrows] at ht
      exact .inl ht
    cases s with
    | insertCA c =>
      simp only [CaTables.exec] at ht
      split at ht <;> exact hsame rfl ht
    | completeCA id c =>
      simp only [CaTables.exec] at ht
      split at ht <;> exact hsame rfl ht
    | insertCertificate c =>
      simp only [CaTables.exec] at ht
      split at ht <;> exact hsame rfl ht
    | recordCARevocation issuer serial reason =>
      have hrecorded : RetiredUnder caID n (t.recordCARevocation issuer serial e.now reason) := ht
      rcases retired_of_record hrecorded with hold | ⟨rfl, hserial⟩
      · exact .inl hold
      · exact .inr ⟨serial, reason, rfl, hserial⟩
    | _ => exact hsame rfl ht
  | inr s =>
    obtain ⟨r, hr, hca, hserial⟩ := hw
    refine .inl ⟨r, ?_, hca, hserial⟩
    cases s with
    | deleteCA id =>
      rcases deleteCA_cases h with rfl | ⟨-, rfl⟩
      · exact hr
      · exact (Table.mem_delete.mp hr).1
    | deleteCertificate id =>
      rcases deleteCertificate_cases h with rfl | rfl
      · exact hr
      · exact hr

end Step

/-! ## Runs -/

section Run

variable [Go.Runtime] (w : World) (ts : List Task) (moves : Pool.Schedule Env) (caID : Nat)

/-- No hold is released and no record deleted: a statement that would take a serial off the lists of
the authority changes nothing. -/
def Lasting : Prop := ∀ m t e s x n, Pool.AskedAt adminExec (tasks w ts) moves m t e s x →
  Lifts caID n (tasksUpto w ts moves m).world.ca s →
    (tasksUpto w ts moves (m + 1)).world.ca = (tasksUpto w ts moves m).world.ca

/-- At move `m` a request for the list of the authority signs it. -/
def SignsList (m : Nat) (crl : CRL) : Prop :=
  ∃ t replica actor e issuer key number this next entries,
    ts[t]? = some (.call ⟨replica, .generateCRL caID actor⟩) ∧
    Pool.AskedAt adminExec (tasks w ts) moves m t e
      (.inl (.host (.createRevocationList issuer key number this next entries))) (.ok crl)

/-- The lists that are signed for the authority have numbers of their own, and what one says all
those with bigger numbers say. -/
structure NewerListsKeep : Prop where
  distinct : ∀ m m' crl crl', SignsList w ts moves caID m crl → SignsList w ts moves caID m' crl' →
    crl.number = crl'.number → m = m'
  kept : ∀ m m' crl crl', SignsList w ts moves caID m crl → SignsList w ts moves caID m' crl' →
    crl.number < crl'.number → ∀ n ∈ crl.serials, n ∈ crl'.serials

/-- **A request is overtaken.** Another one takes its number first, and reads after a revocation
that this one has missed. -/
structure Overtaken (L L' : MadeList) (n : Int) : Prop where
  first : Made w ts moves L ∧ ReadAt w ts moves L ∧ L.caID = caID
  second : Made w ts moves L' ∧ ReadAt w ts moves L' ∧ L'.caID = caID
  numbered : L.numbered < L'.numbered
  unrevoked : ¬ RevokedUnder caID n (tasksUpto w ts moves L'.certificates).world.ca
  unretired : ¬ RetiredUnder caID n (tasksUpto w ts moves L'.authorities).world.ca
  /-- A revocation of that serial takes effect between the reads of the two. -/
  between : ∃ m t e s x, Pool.AskedAt adminExec (tasks w ts) moves m t e s x ∧
    (L'.certificates ≤ m ∧ m < L.certificates ∧ Revokes caID n (tasksUpto w ts moves m).world.ca s ∧
        RevokedUnder caID n (tasksUpto w ts moves (m + 1)).world.ca ∨
      L'.authorities ≤ m ∧ m < L.authorities ∧ Retires caID n s ∧
        RetiredUnder caID n (tasksUpto w ts moves (m + 1)).world.ca)

variable {w ts moves caID} {n : Int}

/-- Where nothing is taken off, what only `Lifts` takes off stays. -/
theorem stays {P : CaTables → Prop} (hlasting : Lasting w ts moves caID)
    (step : ∀ (e : Env) (w w' : World) (s : adminSig.Stmt) (x : adminSig.Ans s),
      adminExec e w s = some (x, w') → P w.ca → P w'.ca ∨ Lifts caID n w.ca s)
    {i j : Nat} (hij : i ≤ j) (hj : j ≤ moves.length) (h : P (tasksUpto w ts moves i).world.ca) :
    P (tasksUpto w ts moves j).world.ca := by
  induction hij with
  | refl => exact h
  | @step j hij ih =>
    have hP := ih (by omega)
    rcases Pool.upto_asked adminExec (tasks w ts) hj with hs | ⟨s, x, hasked, _⟩
    · show P (Pool.upto adminExec _ moves (j + 1)).world.ca
      rw [hs]
      exact hP
    · rcases step _ _ _ s x hasked.exec hP with hP' | hlifts
      · exact hP'
      · rw [hlasting j _ _ s x n hasked hlifts]
        exact hP

/-- What holds at a move and did not before was brought about in between. -/
theorem brought_between {P : CaTables → Prop} {Q : CaTables → adminSig.Stmt → Prop}
    (step : ∀ (e : Env) (w w' : World) (s : adminSig.Stmt) (x : adminSig.Ans s),
      adminExec e w s = some (x, w') → P w'.ca → P w.ca ∨ Q w.ca s)
    {i j : Nat} (hij : i ≤ j) (hj : j ≤ moves.length) (h : P (tasksUpto w ts moves j).world.ca)
    (hnot : ¬ P (tasksUpto w ts moves i).world.ca) :
    ∃ m t e s x, Pool.AskedAt adminExec (tasks w ts) moves m t e s x ∧ i ≤ m ∧ m < j ∧
      Q (tasksUpto w ts moves m).world.ca s ∧ P (tasksUpto w ts moves (m + 1)).world.ca := by
  induction hij with
  | refl => exact absurd h hnot
  | @step j hij ih =>
    rcases Pool.upto_asked adminExec (tasks w ts) hj with hs | ⟨s, x, hasked, _⟩
    · have hsame : tasksUpto w ts moves (j + 1) = tasksUpto w ts moves j := hs
      rw [hsame] at h
      obtain ⟨m, t, e, s, x, hasked, him, hmj, hm⟩ := ih (by omega) h
      exact ⟨m, t, e, s, x, hasked, him, by omega, hm⟩
    · rcases step _ _ _ s x hasked.exec h with hP | hQ
      · obtain ⟨m, t, e, s, x, hasked, him, hmj, hm⟩ := ih (by omega) hP
        exact ⟨m, t, e, s, x, hasked, him, by omega, hm⟩
      · exact ⟨j, _, _, s, x, hasked, hij, Nat.lt_succ_self j, hQ, h⟩

/-- A list that is signed for an authority was made for it. -/
theorem made_of_signsList {m : Nat} {crl : CRL} (h : SignsList w ts moves caID m crl) :
    ∃ L, (Made w ts moves L ∧ ReadAt w ts moves L ∧ L.caID = caID) ∧
      L.signed = m ∧ L.crl = crl := by
  obtain ⟨t, replica, actor, e, issuer, key, number, this, next, entries, htask, hasked⟩ := h
  obtain ⟨L, hL, hread, rfl, hsigned, hcrl⟩ := made_of_signed hasked
  obtain ⟨replica', actor', htask'⟩ := hL.request
  cases htask.symm.trans htask'
  exact ⟨L, ⟨hL, hread, rfl⟩, hsigned, hcrl⟩

theorem signsList_of_made {L : MadeList} (hL : Made w ts moves L) :
    SignsList w ts moves L.caID L.signed L.crl := by
  obtain ⟨replica, actor, htask⟩ := hL.request
  obtain ⟨e, issuer, key, this, next, hasked⟩ := hL.signs
  exact ⟨L.task, replica, actor, e, issuer, key, _, this, next, _, htask, hasked⟩

/-- Both reads of a list are moves of the run. -/
theorem Made.reads_le {L : MadeList} (hL : Made w ts moves L) :
    L.certificates ≤ moves.length ∧ L.authorities ≤ moves.length := by
  obtain ⟨_, _, _, _, _, hasked⟩ := hL.signs
  have hsigned := (List.getElem?_eq_some_iff.mp hasked.move).1
  have hread := hL.read
  have hsign := hL.number.trans hL.sign
  omega

/-- The smaller number was taken first. -/
theorem numbered_lt {L L' : MadeList} (hL : Made w ts moves L) (hL' : Made w ts moves L')
    (hca : L.caID = L'.caID) (hlt : L.crl.number < L'.crl.number) : L.numbered < L'.numbered := by
  rcases Nat.lt_trichotomy L.numbered L'.numbered with h | heq | h
  · exact h
  · obtain ⟨e, hasked⟩ := hL.took
    obtain ⟨e', hasked'⟩ := hL'.took
    obtain ⟨-, r, -, hr, -, hnumber⟩ := number_taken (exec_of_admin hasked.exec)
    obtain ⟨-, r', -, hr', -, hnumber'⟩ := number_taken (exec_of_admin hasked'.exec)
    rw [heq, hca] at hr
    obtain rfl := Option.some.inj (hr.symm.trans hr')
    omega
  · exact absurd hlt (Nat.lt_asymm (number_lt hL' hL hca.symm h))

/-- **Newer lists keep what older ones say**, in a run that releases and deletes nothing, exactly
when no request is overtaken. -/
theorem newer_lists_keep_iff (w : World) (ts : List Task) (moves : Pool.Schedule Env) (caID : Nat)
    (hlasting : Lasting w ts moves caID) :
    NewerListsKeep w ts moves caID ↔ ∀ L L' n, ¬ Overtaken w ts moves caID L L' n := by
  constructor
  · rintro hkeep L L' n h
    obtain ⟨hL, _, hca⟩ := h.first
    obtain ⟨hL', _, hca'⟩ := h.second
    have hn : n ∈ L.crl.serials := by
      obtain ⟨m, t, e, s, x, _, ⟨_, hlt, _, hrevoked⟩ | ⟨_, hlt, _, hretired⟩⟩ := h.between
      · refine (serials_of_made hL n).mpr (.inl ?_)
        rw [hca]
        exact stays hlasting (fun _ _ _ _ _ => revokedUnder_step) hlt hL.reads_le.1 hrevoked
      · refine (serials_of_made hL n).mpr (.inr ?_)
        rw [hca]
        exact stays hlasting (fun _ _ _ _ _ => retiredUnder_step) hlt hL.reads_le.2 hretired
    have hlists := hkeep.kept _ _ _ _ (hca ▸ signsList_of_made hL) (hca' ▸ signsList_of_made hL')
      (number_lt hL hL' (hca.trans hca'.symm) h.numbered) n hn
    rcases (serials_of_made hL' n).mp hlists with hrevoked | hretired
    · exact h.unrevoked (hca' ▸ hrevoked)
    · exact h.unretired (hca' ▸ hretired)
  · intro hnot
    constructor
    · intro m m' crl crl' hm hm' hnumber
      obtain ⟨L, ⟨hL, _, hca⟩, rfl, rfl⟩ := made_of_signsList hm
      obtain ⟨L', ⟨hL', _, hca'⟩, rfl, rfl⟩ := made_of_signsList hm'
      exact signed_eq hL hL' (hca.trans hca'.symm) hnumber
    · intro m m' crl crl' hm hm' hlt n hn
      obtain ⟨L, ⟨hL, hread, hca⟩, rfl, rfl⟩ := made_of_signsList hm
      obtain ⟨L', ⟨hL', hread', hca'⟩, rfl, rfl⟩ := made_of_signsList hm'
      have hnumbered := numbered_lt hL hL' (hca.trans hca'.symm) hlt
      by_contra hmissing
      have hunrevoked : ¬ RevokedUnder caID n (tasksUpto w ts moves L'.certificates).world.ca :=
        fun h => hmissing ((serials_of_made hL' n).mpr (.inl (hca' ▸ h)))
      have hunretired : ¬ RetiredUnder caID n (tasksUpto w ts moves L'.authorities).world.ca :=
        fun h => hmissing ((serials_of_made hL' n).mpr (.inr (hca' ▸ h)))
      rcases (serials_of_made hL n).mp hn with hrevoked | hretired
      · rw [hca] at hrevoked
        rcases Nat.lt_or_ge L'.certificates L.certificates with hearlier | hlater
        · obtain ⟨m, t, e, s, x, hasked, hbetween⟩ := brought_between
            (fun _ _ _ _ _ => revokes_of_step) hearlier.le hL.reads_le.1 hrevoked hunrevoked
          obtain ⟨him, hmj, hcaused⟩ := hbetween
          exact hnot L L' n ⟨⟨hL, hread, hca⟩, ⟨hL', hread', hca'⟩, hnumbered, hunrevoked,
            hunretired, m, t, e, s, x, hasked, .inl ⟨him, hmj, hcaused⟩⟩
        · exact hunrevoked (stays hlasting (fun _ _ _ _ _ => revokedUnder_step) hlater
            hL'.reads_le.1 hrevoked)
      · rw [hca] at hretired
        rcases Nat.lt_or_ge L'.authorities L.authorities with hearlier | hlater
        · obtain ⟨m, t, e, s, x, hasked, hbetween⟩ := brought_between
            (Q := fun _ s => Retires caID n s) (fun _ _ _ _ _ => retires_of_step) hearlier.le
            hL.reads_le.2 hretired hunretired
          obtain ⟨him, hmj, hcaused⟩ := hbetween
          exact hnot L L' n ⟨⟨hL, hread, hca⟩, ⟨hL', hread', hca'⟩, hnumbered, hunrevoked,
            hunretired, m, t, e, s, x, hasked, .inr ⟨him, hmj, hcaused⟩⟩
        · exact hunretired (stays hlasting (fun _ _ _ _ _ => retiredUnder_step) hlater
            hL'.reads_le.2 hretired)

/-- A call keeps to the footprint of its request in every run. -/
theorem serve_within (c : Call) :
    c.serve.Traced (fun _ s => Within c.request.effects s) (fun _ _ => True) [] :=
  (serve_uses c).traced

/-- Requests that release nothing take nothing off. -/
theorem lasting_of_calls
    (h : ∀ task ∈ ts, ∃ c, task = .call c ∧ Effect.unrevokeCertificate ∉ c.request.effects) :
    Lasting w ts moves caID := by
  intro m t e s x n hasked hlifts
  obtain ⟨task, htask, hmay⟩ := taskMay_next serve_within hasked.next
  obtain ⟨c, rfl, hkeeps⟩ := h task (List.mem_of_getElem? htask)
  obtain ⟨s', rfl, hwithin⟩ := hmay
  rcases hlifts with hdelete | ⟨r, _, hrelease | hdelete, _⟩
  · cases hdelete
  · cases hrelease
    exact absurd hwithin hkeeps
  · cases hdelete

/-- The list that a task signs at its next move. -/
def signedList? (p : Pool adminSig Reply World) (t : Nat) (e : Env) : Option CRL :=
  match p.next? t with
  | some (.inl (.host (.createRevocationList issuer key number this next entries))) =>
    match adminExec e p.world
        (.inl (.host (.createRevocationList issuer key number this next entries))) with
    | some (.ok crl, _) => some crl
    | _ => none
  | _ => none

theorem signsList_of_signedList {m t : Nat} {e : Env} {replica : Acme.Service} {actor : String}
    {crl : CRL} (hmove : moves[m]? = some (t, e))
    (htask : ts[t]? = some (.call ⟨replica, .generateCRL caID actor⟩))
    (h : signedList? (tasksUpto w ts moves m) t e = some crl) :
    SignsList w ts moves caID m crl := by
  unfold signedList? at h
  split at h
  · next issuer key number this next entries hnext =>
    split at h
    · next crl' w' hexec =>
      obtain rfl := Option.some.inj h
      exact ⟨t, replica, actor, e, issuer, key, number, this, next, entries, htask,
        .of_next hmove hnext hexec⟩
    · cases h
  · cases h

end Run

/-! ## A request that is overtaken -/

open Samples

attribute [local instance] Go.asciiRuntime

/-- Three requests for the list of the root and the revocation of the certificate under it. -/
def listsAndRevocation : List Task := [
  .call ⟨replica, .generateCRL 1 "a"⟩, .call ⟨replica, .revoke 1 1 "b"⟩,
  .call ⟨replica, .generateCRL 1 "c"⟩, .call ⟨replica, .generateCRL 1 "d"⟩]

theorem lasting_listsAndRevocation (moves : Pool.Schedule Env) :
    Lasting (installation root [leaf]) listsAndRevocation moves 1 := by
  refine lasting_of_calls ?_
  simp [listsAndRevocation, Request.effects]

/-- The first request reads both tables, the certificate is revoked, the second request signs its
list, and then the first one takes its number. -/
def overtakenList : Pool.Schedule Env :=
  inTurn ([0, 0, 0, 1, 1, 1] ++ List.replicate 8 2 ++ List.replicate 4 0)

/-- The two lists of this schedule, by what they are signed with. -/
theorem overtakenList_signs :
    ((signedList? (tasksUpto (installation root [leaf]) listsAndRevocation overtakenList 12) 2
      { now := 100, pick := 2 }).map fun l => (l.number, l.serials)) = some (1, [2]) ∧
    ((signedList? (tasksUpto (installation root [leaf]) listsAndRevocation overtakenList 16) 0
      { now := 100, pick := 2 }).map fun l => (l.number, l.serials)) = some (2, []) := by
  decide +kernel

/-- **A newer list forgets a revocation**: list 1 has the serial of the certificate, and list 2 was
read before. -/
theorem newer_list_forgets :
    Lasting (installation root [leaf]) listsAndRevocation overtakenList 1 ∧
      ¬ NewerListsKeep (installation root [leaf]) listsAndRevocation overtakenList 1 := by
  refine ⟨lasting_listsAndRevocation _, fun h => ?_⟩
  obtain ⟨hfirst, hsecond⟩ := overtakenList_signs
  obtain ⟨crl, hcrl, hsays⟩ := Option.map_eq_some_iff.mp hfirst
  obtain ⟨crl', hcrl', hsays'⟩ := Option.map_eq_some_iff.mp hsecond
  obtain ⟨hnumber, hserials⟩ := Prod.mk.inj hsays
  obtain ⟨hnumber', hserials'⟩ := Prod.mk.inj hsays'
  have hkept := h.kept _ _ _ _ (signsList_of_signedList rfl rfl hcrl)
    (signsList_of_signedList rfl rfl hcrl') (by omega) 2 (by rw [hserials]; decide)
  rw [hserials'] at hkept
  cases hkept

/-- The threads of a run in which two requests read before the revocation, the one that reads first
takes its number last, and a third one follows. -/
def turns : List Nat :=
  [0, 0, 2, 2, 0] ++ List.replicate 5 2 ++ List.replicate 4 0 ++ [1, 1, 1] ++ List.replicate 8 3

/-- The statement that is asked at a move of this run. -/
def askedIn (m : Nat) : Option adminSig.Stmt :=
  (tasksUpto (installation root [leaf]) listsAndRevocation (inTurn turns) m).next? (turns.getD m 0)

/-- What a list is read, numbered and outdated by. -/
def readsRevoked : adminSig.Stmt → Bool
  | .inl (.ca (.revokedCertificates _)) => true
  | _ => false

def takesNumber : adminSig.Stmt → Bool
  | .inl (.ca (.nextCRLNumber _)) => true
  | _ => false

def revokes : adminSig.Stmt → Bool
  | .inl (.ca (.revokeCertificate _ _)) | .inl (.ca (.insertCertificate _)) => true
  | _ => false

def retires : adminSig.Stmt → Bool
  | .inl (.ca (.recordCARevocation _ _ _)) => true
  | _ => false

/-- Where each is asked. -/
theorem turns_ask : ∀ m < 25,
    ((askedIn m).any readsRevoked = true → m = 1 ∨ m = 3 ∨ m = 18) ∧
    ((askedIn m).any takesNumber = true → m = 6 ∨ m = 10 ∨ m = 21) ∧
    ((askedIn m).any revokes = true → m = 15) ∧ (askedIn m).any retires = false := by
  decide +kernel

/-- No list of this run loses a serial, although two requests overlap. -/
theorem turns_keep :
    NewerListsKeep (installation root [leaf]) listsAndRevocation (inTurn turns) 1 := by
  refine (newer_lists_keep_iff _ _ _ _ (lasting_listsAndRevocation _)).mpr ?_
  have hasks {m t : Nat} {e : Env} {s : adminSig.Stmt} {x : adminSig.Ans s}
      (h : Pool.AskedAt adminExec (tasks (installation root [leaf]) listsAndRevocation)
        (inTurn turns) m t e s x) : m < 25 ∧ askedIn m = some s := by
    obtain ⟨t', ht, hpair⟩ := Option.map_eq_some_iff.mp (List.getElem?_map.symm.trans h.move)
    cases hpair
    refine ⟨(List.getElem?_eq_some_iff.mp ht).1, ?_⟩
    unfold askedIn
    rw [List.getD_eq_getElem?_getD, ht]
    exact h.next
  rintro L L' n ⟨⟨hL, hread, _⟩, ⟨hL', _, _⟩, hnumbered, _, _, m, t, e, s, x, hasked, hbetween⟩
  obtain ⟨hlt, hs⟩ := hasks hasked
  obtain ⟨_, _, hrevokes, hretires⟩ := turns_ask m hlt
  rw [hs] at hrevokes hretires
  rcases hbetween with ⟨_, hbefore, hrevoked, _⟩ | ⟨_, _, ⟨serial, reason, rfl, _⟩, _⟩
  · have hm : m = 15 := by
      refine hrevokes ?_
      rcases hrevoked with ⟨_, _, reason, rfl, _⟩ | ⟨_, rfl, _⟩
      · rfl
      · rfl
    obtain ⟨e₁, rows, hcertificates⟩ := hread.certificates
    obtain ⟨e₂, hnumber⟩ := hL.took
    obtain ⟨e₃, hnumber'⟩ := hL'.took
    obtain ⟨hlt₁, hs₁⟩ := hasks hcertificates
    obtain ⟨hlt₂, hs₂⟩ := hasks hnumber
    obtain ⟨hlt₃, hs₃⟩ := hasks hnumber'
    have hat₁ := (turns_ask _ hlt₁).1 (by rw [hs₁]; rfl)
    have hat₂ := (turns_ask _ hlt₂).2.1 (by rw [hs₂]; rfl)
    have hat₃ := (turns_ask _ hlt₃).2.1 (by rw [hs₃]; rfl)
    have hfirst := hL.read
    have hthen := hL.number
    omega
  · cases hretires

end Goca
