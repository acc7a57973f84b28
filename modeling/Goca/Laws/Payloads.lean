import Goca.Laws.Versions

/-!
# The payloads of versions

What `GetVersion` opens is what the `Put` of that number was given, in every run of any number of
calls: a row of a version comes from one commit, holds the value of one `Put` sealed for its secret
and its number, and is changed by nothing but its destruction. So no envelope opens as another
version or another secret, and a version that was destroyed never opens again.
-/

set_option autoImplicit false

namespace Goca.Vault

open Goca.Pqcrypt (Bytes openText_plain openText_sealWith)
open Sql (Table)
open Interleave (Act Event Pool Prog Sem Trace own)
open Interleave.Act

/-! ## Additional data -/

/-- The additional data names one secret and one number. -/
theorem aad_inj {sid n sid' n' : Nat} : aad sid n = aad sid' n' ↔ sid = sid' ∧ n = n' := by
  refine ⟨fun h => ?_, fun ⟨hid, hn⟩ => hid ▸ hn ▸ rfl⟩
  have hlist := congrArg String.toList h
  simp only [aad, String.toList_append, List.append_assoc, List.append_cancel_left_eq] at hlist
  have hdigits (k : Nat) (rest : List Char) :
      ((toString k).toList ++ ("|".toList ++ rest)).takeWhile Char.isDigit =
        (toString k).toList := by
    rw [List.takeWhile_append_of_pos fun c hc => Go.isDigit_of_mem_toString hc]
    exact List.append_nil _
  have hsid : (toString sid).toList = (toString sid').toList := by
    rw [← hdigits sid, hlist, hdigits]
  rw [hsid, List.append_cancel_left_eq, List.append_cancel_left_eq] at hlist
  exact ⟨Go.toString_inj.mp (String.toList_injective hsid),
    Go.toString_inj.mp (String.toList_injective hlist)⟩

/-! ## One row -/

/-- A version is kept, or only destroyed. -/
def Kept (v v' : SecretVersion) : Prop := v' = v ∨ v' = v.scrub

theorem Kept.refl (v : SecretVersion) : Kept v v := .inl rfl

theorem Kept.trans (a b c : SecretVersion) (h : Kept a b) (h' : Kept b c) : Kept a c := by
  rcases h with rfl | rfl
  · exact h'
  · rcases h' with rfl | rfl
    · exact .inr rfl
    · exact .inr rfl

theorem Kept.id {v v' : SecretVersion} (h : Kept v v') : v'.id = v.id := by
  rcases h with rfl | rfl
  · rfl
  · rfl

theorem Kept.secretID {v v' : SecretVersion} (h : Kept v v') : v'.secretID = v.secretID := by
  rcases h with rfl | rfl
  · rfl
  · rfl

theorem Kept.version {v v' : SecretVersion} (h : Kept v v') : v'.version = v.version := by
  rcases h with rfl | rfl
  · rfl
  · rfl

/-- The row by which a transaction stores its version. -/
def SecretVersion.stored (v : SecretVersion) (id : Nat) : SecretVersion :=
  { v with id, destroyed := false }

section Rows

variable {t : Tables} {certs : Table Store.Certificate}

/-- **What a statement does to the versions**: a commit stores one, and everything else keeps,
destroys or deletes them. -/
theorem exec_versions (d : DbStmt) : t.versions.Follows Kept (t.exec certs d).2.versions ∧
    ∀ v' ∈ (t.exec certs d).2.versions.rows, (∃ v ∈ t.versions.rows, Kept v v') ∨
      ∃ tx row v, d = .commit tx ∧ t.txs.get? tx = some row ∧ row.inserted = some v ∧
        (t.exec certs d).2 = t.commitTx row ∧ v' = v.stored (t.versions.seq + 1) := by
  have hsame {t' : Tables} (h : t'.versions = t.versions) : t.versions.Follows Kept t'.versions ∧
      ∀ v' ∈ t'.versions.rows, (∃ v ∈ t.versions.rows, Kept v v') ∨
        ∃ tx row v, d = .commit tx ∧ t.txs.get? tx = some row ∧ row.inserted = some v ∧
          t' = t.commitTx row ∧ v' = v.stored (t.versions.seq + 1) := by
    rw [h]
    exact ⟨.refl Kept.refl _, fun v' hv' => .inl ⟨v', hv', .refl v'⟩⟩
  cases d with
  | commit tx =>
    simp only [Tables.exec]
    rcases within_cases t tx with ⟨-, heq⟩ | ⟨row, hrow, heq⟩
    · rw [heq]
      exact hsame rfl
    · rw [heq]
      cases hins : row.inserted with
      | none =>
        refine hsame ?_
        show (t.commitTx row).versions = t.versions
        unfold Tables.commitTx
        rw [hins]
      | some v =>
        have hversions : (t.commitTx row).versions =
            t.versions.insert (fun id => v.stored id) fun _ => rfl := by
          unfold Tables.commitTx
          rw [hins]
          rfl
        show t.versions.Follows Kept (t.commitTx row).versions ∧ _
        refine ⟨hversions ▸ Table.follows_insert Kept.refl _ _ _, fun v' hv' => ?_⟩
        have hv' : v' ∈ (t.commitTx row).versions.rows := hv'
        rw [hversions] at hv'
        rcases Table.mem_insert.mp hv' with hv' | rfl
        · exact .inl ⟨v', hv', .refl v'⟩
        · exact .inr ⟨tx, row, v, rfl, hrow, hins, rfl, rfl⟩
  | destroyVersion id =>
    refine ⟨Table.follows_update (g := SecretVersion.scrub) Kept.refl t.versions (·.id == id)
      (fun _ => rfl) fun _ => .inr rfl, fun v' hv' => .inl ?_⟩
    obtain ⟨v, hv, rfl⟩ := List.mem_map.mp hv'
    refine ⟨v, hv, ?_⟩
    split
    · exact .inr rfl
    · exact .refl v
  | deleteSecret id =>
    exact ⟨Table.follows_delete Kept.refl _ _, fun v' hv' =>
      .inl ⟨v', (Table.mem_delete.mp hv').1, .refl v'⟩⟩
  | reserveVersion tx sid =>
    simp only [Tables.exec]
    rcases within_cases t tx with ⟨-, heq⟩ | ⟨row, -, heq⟩
    · rw [heq]
      exact hsame rfl
    · rw [heq]
      split
      · exact hsame rfl
      · exact hsame rfl
  | insertVersion tx v =>
    simp only [Tables.exec]
    rcases within_cases t tx with ⟨-, heq⟩ | ⟨row, -, heq⟩
    · rw [heq]
      exact hsame rfl
    · rw [heq]
      split
      · exact hsame rfl
      · exact hsame rfl
  | rollback tx =>
    simp only [Tables.exec]
    rcases within_cases t tx with ⟨-, heq⟩ | ⟨row, -, heq⟩
    · rw [heq]
      exact hsame rfl
    · rw [heq]
      exact hsame rfl
  | insertSecret sec =>
    simp only [Tables.exec]
    split
    · exact hsame rfl
    · exact hsame rfl
  | insertBinding b =>
    simp only [Tables.exec]
    split
    · exact hsame rfl
    · exact hsame rfl
  | _ => exact hsame rfl

end Rows

/-! ## Where a row comes from -/

section Run

variable [Go.Runtime] {s : Service} {base : Store.World} {calls : List Call}
  {moves : Pool.Schedule Store.Env} {i j t : Nat}

/-- Versions are kept from each move to every later one, or destroyed, or deleted. -/
theorem versions_upto (hij : i ≤ j) (hj : j ≤ moves.length) :
    (tablesUpto s base calls moves i).versions.Follows Kept
      (tablesUpto s base calls moves j).versions := by
  refine Pool.upto_related
    (R := fun w w' : World => w.vault.versions.Follows Kept w'.vault.versions)
    (fun _ => .refl Kept.refl _) (fun _ _ _ h h' => h.trans Kept.trans h') ?_ _ hij hj
  intro e w st x w' h
  rcases tables_step h with heq | ⟨d, rfl, -, heq⟩
  · rw [heq]
    exact .refl Kept.refl _
  · rw [heq]
    exact (exec_versions d).1

/-- Version `v` is what is left of the row that thread `t` stored at move `m` for `u`. -/
structure ComesFrom (s : Service) (base : Store.World) (calls : List Call)
    (moves : Pool.Schedule Store.Env) (m t : Nat) (u v : SecretVersion) : Prop where
  stores : StoresAt s base calls moves m t u
  kept : Kept (u.stored ((tablesUpto s base calls moves m).versions.seq + 1)) v

/-- **Every version was stored** by one move. -/
theorem version_origin (hi : i ≤ moves.length) {v : SecretVersion}
    (hv : v ∈ (tablesUpto s base calls moves i).versions.rows) :
    ∃ m t u, m < i ∧ ComesFrom s base calls moves m t u v := by
  induction i generalizing v with
  | zero => exact absurd hv List.not_mem_nil
  | succ i ih =>
    have hlt : i ≤ moves.length := Nat.le_of_succ_le hi
    have hold {v₀ : SecretVersion} (hv₀ : v₀ ∈ (tablesUpto s base calls moves i).versions.rows)
        (hkept : Kept v₀ v) : ∃ m t u, m < i + 1 ∧ ComesFrom s base calls moves m t u v := by
      obtain ⟨m, t, u, hm, hfrom⟩ := ih hlt hv₀
      exact ⟨m, t, u, Nat.lt_succ_of_lt hm, hfrom.stores, hfrom.kept.trans _ _ _ hkept⟩
    rcases Pool.upto_asked exec (s.answering (.fresh base) calls) hi with hs | ⟨st, x, hasked, -⟩
    · unfold tablesUpto Service.answeringUpto at hv
      rw [hs] at hv
      exact hold hv (.refl v)
    · rcases tables_step hasked.exec with heq | ⟨d, rfl, -, heq⟩
      · have heq : tablesUpto s base calls moves (i + 1) = tablesUpto s base calls moves i := heq
        rw [heq] at hv
        exact hold hv (.refl v)
      · have heq : tablesUpto s base calls moves (i + 1) = _ := heq
        rw [heq] at hv
        rcases (exec_versions d).2 v hv with
          ⟨v₀, hv₀, hkept⟩ | ⟨tx, row, u, rfl, hrow, hins, hcommit, rfl⟩
        · exact hold hv₀ hkept
        · -- what the transaction holds is what its owner has inserted
          obtain ⟨c, -, -, -, u', hinserted⟩ := asked_allowed hasked
          have hledger : Ledger _ (tablesUpto s base calls moves i) := (dense_upto hlt).1
          have hrow' := hledger.inserted row (Table.mem_of_get? hrow) _ u'
            (by rwa [tx_id hrow])
          obtain rfl : u = u' := Option.some.inj (hins.symm.trans hrow')
          exact ⟨i, _, u, Nat.lt_succ_self i, ⟨tx, _, x, row, hasked, hinserted, hrow, hins,
            heq.trans hcommit⟩, .refl _⟩

/-- **What is stored is the value of a `Put`**, sealed for the secret and the number. -/
theorem StoresAt.sealed {m : Nat} {u : SecretVersion} (h : StoresAt s base calls moves m t u) :
    ∃ name value contentType actor d,
      calls[t]? = some (.request (.put name value contentType actor)) ∧
      u = s.written d value contentType u.secretID u.version := by
  have hlt := h.lt
  obtain ⟨tx, -, -, -, -, hinserted, -⟩ := h
  obtain ⟨j, e, -, hasked⟩ := Pool.history_origin hlt.le rfl (Interleave.mem_own.mp hinserted)
  obtain ⟨c, hc, -, -, -, -, name, value, contentType, actor, d, rfl, hu⟩ := asked_allowed hasked
  exact ⟨name, value, contentType, actor, d, hc, hu⟩

/-- What a stored version opens as, and under what. -/
theorem ComesFrom.opens {m : Nat} {u v : SecretVersion} (h : ComesFrom s base calls moves m t u v)
    {sid n : Nat} {p : Bytes} (hopen : s.vault.openText v.payloadEnc (aad sid n) = .ok p) :
    sid = v.secretID ∧ n = v.version ∧ v.destroyed = false ∧ v.payloadSHA256 = ⟨p⟩ ∧
      ∃ name contentType actor, calls[t]? = some (.request (.put name p contentType actor)) := by
  obtain ⟨name, value, contentType, actor, d, hc, hu⟩ := h.stores.sealed
  rcases h.kept with rfl | rfl
  · have henc : u.payloadEnc = s.vault.sealWith d value (aad u.secretID u.version) :=
      congrArg SecretVersion.payloadEnc hu
    have hsum : u.payloadSHA256 = ⟨value⟩ := congrArg SecretVersion.payloadSHA256 hu
    have hopen : s.vault.openText u.payloadEnc (aad sid n) = .ok p := hopen
    rw [henc, openText_sealWith, aad_inj] at hopen
    obtain ⟨-, ⟨rfl, rfl⟩, rfl⟩ := hopen
    exact ⟨rfl, rfl, rfl, hsum, name, contentType, actor, hc⟩
  · exact absurd hopen (openText_plain _ _ _)

/-- Two rows of one number come from the same move, and have the same key. -/
theorem ComesFrom.unique {m m' t' : Nat} {u u' v v' : SecretVersion}
    (h : ComesFrom s base calls moves m t u v) (h' : ComesFrom s base calls moves m' t' u' v')
    (hid : v.secretID = v'.secretID) (hnum : v.version = v'.version) :
    m = m' ∧ t = t' ∧ u = u' ∧ v.id = v'.id := by
  have hu : u.secretID = u'.secretID := h.kept.secretID.symm.trans (hid.trans h'.kept.secretID)
  have hn : u.version = u'.version := h.kept.version.symm.trans (hnum.trans h'.kept.version)
  obtain ⟨rfl, rfl, rfl⟩ := h.stores.unique h'.stores hu hn
  exact ⟨rfl, rfl, rfl, h.kept.id.trans h'.kept.id.symm⟩

/-- **A version is kept** from each move to every later one, or only destroyed. -/
theorem kept_upto (hij : i ≤ j) (hj : j ≤ moves.length) {v v' : SecretVersion}
    (hv : v ∈ (tablesUpto s base calls moves i).versions.rows)
    (hv' : v' ∈ (tablesUpto s base calls moves j).versions.rows)
    (hid : v.secretID = v'.secretID) (hnum : v.version = v'.version) : Kept v v' := by
  obtain ⟨m, t, u, -, hfrom⟩ := version_origin (hij.trans hj) hv
  obtain ⟨m', t', u', -, hfrom'⟩ := version_origin hj hv'
  obtain ⟨-, -, -, hkey⟩ := hfrom.unique hfrom' hid hnum
  refine (versions_upto hij hj).related (Table.get?_of_mem hv) ?_
  rw [show Sql.Keyed.key v = Sql.Keyed.key v' from hkey]
  exact Table.get?_of_mem hv'

end Run

/-! ## What is read -/

section Read

variable {s : Service}

/-- What a call that opens a version has read when it answers. -/
def OpenPromise (s : Service) : Call → Trace sig → Reply → Prop
  | .getVersion _ n, q, .opened sec pt =>
    ∃ v, Asked q (.selectVersion sec.id n) (.ok (some v)) ∧ s.openVersion sec v = .ok pt
  | .getLatest _, q, .opened sec pt =>
    ∃ v, Asked q (.selectLatestVersion sec.id) (.ok (some v)) ∧ s.openVersion sec v = .ok pt
  | _, _, _ => True

/-- A version is read, and opened. -/
theorem opening_traced {x : Secret → Handler Go.Error SecretVersion}
    {m : Secret → Trace sig → SecretVersion → Prop}
    (hx : ∀ sec q, (x sec).Traced (fun _ _ => True) (m sec) q) (name : String) : (do
      let sec ← resolveOpenable name
      let v ← x sec
      let pt ← Act.ofExcept (s.openVersion sec v)
      pure (sec, pt) : Handler Go.Error (Secret × Bytes)).Traced (fun _ _ => True)
        (fun q r => ∃ v, m r.1 q v ∧ s.openVersion r.1 v = .ok r.2) [] := by
  refine traced_any_bind fun q₁ sec _ => (hx sec q₁).bind fun q₂ v _ hread => ?_
  refine Traced.bind (m := fun q pt => q = q₂ ∧ s.openVersion sec v = .ok pt)
    (traced_ofExcept fun pt hpt => ⟨rfl, hpt⟩) ?_
  rintro q₃ pt - ⟨rfl, hpt⟩
  exact traced_pure ⟨v, hread, hpt⟩

theorem answer_opens (s : Service) (c : Call) :
    (s.answer c).Traced (fun _ _ => True) (OpenPromise s c) [] := by
  have hany : (s.answer c).Traced (fun _ _ => True) (fun _ _ => True) [] :=
    (Prog.traced_any _ _).mono (fun _ _ => id) fun _ _ _ => trivial
  cases c with
  | getVersion name n =>
    refine replying_traced (opening_traced (m := fun sec q v =>
      Asked q (.selectVersion sec.id n) (.ok (some v))) (fun sec q => ?_) name) ?_
      fun _ _ => trivial
    · exact answer_traced trivial fun x v hv => row_eq_ok hv ▸ asked_last
    · exact fun _ _ h => h
  | getLatest name =>
    refine replying_traced (opening_traced (m := fun sec q v =>
      Asked q (.selectLatestVersion sec.id) (.ok (some v))) (fun sec q => ?_) name) ?_
      fun _ _ => trivial
    · exact answer_traced trivial fun x v hv => row_eq_ok hv ▸ asked_last
    · exact fun _ _ h => h
  | request r => exact hany
  | vaultFetch id ip body => exact hany
  | esoFetch id ip key property all => exact hany
  | disconnect tx => exact hany

/-- The newest version of a secret that is not destroyed. -/
structure Newest (t : Tables) (sid : Nat) (v : SecretVersion) : Prop where
  mem : v ∈ t.versions.rows
  secretID : v.secretID = sid
  kept : v.destroyed = false
  newest : ∀ v' ∈ t.versions.rows, v'.secretID = sid → v'.destroyed = false →
    v'.version ≤ v.version

theorem latest_eq_some {t : Tables} {sid : Nat} {v : SecretVersion} (h : t.latest sid = some v) :
    Newest t sid v := by
  unfold Tables.latest at h
  generalize hrows : (t.versions.rows.filter fun v => v.secretID == sid && !v.destroyed) = rows at h
  have hmem {v' : SecretVersion} : v' ∈ rows ↔
      v' ∈ t.versions.rows ∧ v'.secretID = sid ∧ v'.destroyed = false := by
    rw [← hrows, List.mem_filter, Bool.and_eq_true, beq_iff_eq, Bool.not_eq_true']
  have hsorted := List.pairwise_insertionSort
    (fun a b : SecretVersion => b.version ≤ a.version) rows
  obtain ⟨rest, hlist⟩ := List.head?_eq_some_iff.mp h
  rw [hlist, List.pairwise_cons] at hsorted
  have hperm (x : SecretVersion) : x ∈ v :: rest ↔ x ∈ rows := by
    rw [← hlist]
    exact List.mem_insertionSort _
  have hv : v ∈ rows := (hperm v).mp (List.mem_cons_self ..)
  obtain ⟨hv, hid, hdestroyed⟩ := hmem.mp hv
  refine ⟨hv, hid, hdestroyed, fun v' hv' hid' hdestroyed' => ?_⟩
  have hv' := (hperm v').mpr (hmem.mpr ⟨hv', hid', hdestroyed'⟩)
  rcases List.mem_cons.mp hv' with rfl | hv'
  · exact Nat.le_refl _
  · exact hsorted.1 v' hv'

theorem openVersion_eq_ok {sec : Secret} {v : SecretVersion} {pt : Bytes}
    (h : s.openVersion sec v = .ok pt) :
    v.destroyed = false ∧ s.vault.openText v.payloadEnc (aad sec.id v.version) = .ok pt := by
  unfold Service.openVersion at h
  split at h
  · cases h
  · next hd => exact ⟨Bool.not_eq_true _ ▸ hd, Go.mapError_eq_ok.mp h⟩

end Read

/-! ## The law -/

section Law

variable [Go.Runtime] (s : Service) (base : Store.World) (calls : List Call)
  (moves : Pool.Schedule Store.Env)

/-- Call `t` is a `Put` of a value, which is stored under a number of a secret. -/
def PutOf (t : Nat) (value : Bytes) (sid : Nat) (n : Int) : Prop :=
  (∃ name contentType actor, calls[t]? = some (.request (.put name value contentType actor))) ∧
    ∃ m u, StoresAt s base calls moves m t u ∧ u.secretID = sid ∧ (u.version : Int) = n

/-- Call `t` is a given one, and has answered at the end of the run. -/
def Answers (t : Nat) (c : Call) (r : Reply) : Prop :=
  calls[t]? = some c ∧
    (s.answeringUpto base calls moves moves.length).threads[t]? = some (.pure r)

/-- **The versions of a run are faithful.** -/
structure VersionsFaithful : Prop where
  /-- An envelope opens under its own secret and number only, to what its digest was taken of. -/
  bound : ∀ i ≤ moves.length, ∀ v ∈ (tablesUpto s base calls moves i).versions.rows,
    ∀ sid n p, s.vault.openText v.payloadEnc (aad sid n) = .ok p →
      sid = v.secretID ∧ n = v.version ∧ v.payloadSHA256 = ⟨p⟩
  /-- What `GetVersion` answers is what a `Put` was given, and no other `Put` has the number. -/
  version : ∀ t name n sec pt, Answers s base calls moves t (.getVersion name n) (.opened sec pt) →
    (∃ t', PutOf s base calls moves t' pt sec.id n) ∧
      ∀ t' value, PutOf s base calls moves t' value sec.id n → value = pt
  /-- What `GetLatest` answers is what a `Put` was given for the version that it has read, which no
  other `Put` has stored and which was the newest undestroyed one when it was read. -/
  latest : ∀ t name sec pt, Answers s base calls moves t (.getLatest name) (.opened sec pt) →
    ∃ m e v, Pool.AskedAt exec (s.answering (.fresh base) calls) moves m t e
        (.inr (.db (.selectLatestVersion sec.id))) (.ok (some v)) ∧
      Newest (tablesUpto s base calls moves m) sec.id v ∧
      (∃ t', PutOf s base calls moves t' pt sec.id v.version) ∧
      ∀ t' value, PutOf s base calls moves t' value sec.id v.version → value = pt
  /-- Whoever answers with a version has stored it. -/
  stored : ∀ t name value contentType actor v,
    Answers s base calls moves t (.request (.put name value contentType actor)) (.version v) →
    PutOf s base calls moves t value v.secretID v.version
  /-- A version is never changed, but destroyed. -/
  kept : ∀ i j, i ≤ j → j ≤ moves.length → ∀ v ∈ (tablesUpto s base calls moves i).versions.rows,
    ∀ v' ∈ (tablesUpto s base calls moves j).versions.rows, v.secretID = v'.secretID →
      v.version = v'.version → v' = v ∨ v' = v.scrub
  /-- A version that was destroyed never opens again. -/
  destroyed : ∀ i j, i ≤ j → j ≤ moves.length →
    ∀ v ∈ (tablesUpto s base calls moves i).versions.rows, v.destroyed = true →
    ∀ v' ∈ (tablesUpto s base calls moves j).versions.rows, v.secretID = v'.secretID →
      v.version = v'.version → ∀ sec p, s.openVersion sec v' ≠ .ok p

variable {s base calls moves}

/-- What was read and opened, a `Put` has stored. -/
theorem putOf_opened {i : Nat} (hi : i ≤ moves.length) {v : SecretVersion}
    (hv : v ∈ (tablesUpto s base calls moves i).versions.rows) {sec : Secret} {pt : Bytes}
    (hopen : s.openVersion sec v = .ok pt) :
    v.secretID = sec.id ∧ ∃ t, PutOf s base calls moves t pt sec.id v.version := by
  obtain ⟨m, t, u, -, hfrom⟩ := version_origin hi hv
  obtain ⟨hid, -, -, -, hcall⟩ := hfrom.opens (openVersion_eq_ok hopen).2
  refine ⟨hid.symm, t, hcall, m, u, hfrom.stores, ?_, ?_⟩
  · rw [hid, hfrom.kept.secretID]
    rfl
  · rw [hfrom.kept.version]
    rfl

theorem PutOf.unique {t t' : Nat} {value value' : Bytes} {sid : Nat} {n : Int}
    (h : PutOf s base calls moves t value sid n) (h' : PutOf s base calls moves t' value' sid n) :
    value = value' := by
  obtain ⟨⟨name, contentType, actor, hc⟩, m, u, hstores, hid, hnum⟩ := h
  obtain ⟨⟨name', contentType', actor', hc'⟩, m', u', hstores', hid', hnum'⟩ := h'
  obtain ⟨-, rfl, -⟩ := hstores.unique hstores' (hid.trans hid'.symm)
    (Int.ofNat.inj (hnum.trans hnum'.symm))
  rw [hc] at hc'
  cases hc'
  rfl

variable (s base calls moves)

/-- **Versions are immutable and faithful**, in every run of any number of calls. -/
theorem versions_faithful : VersionsFaithful s base calls moves where
  bound i hi v hv sid n p hopen := by
    obtain ⟨m, t, u, -, hfrom⟩ := version_origin hi hv
    obtain ⟨hid, hnum, -, hsum, -⟩ := hfrom.opens hopen
    exact ⟨hid, hnum, hsum⟩
  version t name n sec pt h := by
    obtain ⟨v, hread, hopen⟩ := answered (answer_opens s) h.1 h.2
    obtain ⟨j, e, hj, hasked⟩ := Pool.history_origin (Nat.le_refl _) rfl
      (Interleave.mem_own.mp hread)
    obtain ⟨-, -, hexec⟩ := exec_db_ok hasked.exec
    have hfound := Except.ok.inj (Prod.mk.inj hexec).1
    have his := List.find?_some hfound
    simp only [SecretVersion.is, Bool.and_eq_true, beq_iff_eq] at his
    obtain ⟨-, t', hput⟩ := putOf_opened hj.le (List.mem_of_find?_eq_some hfound) hopen
    rw [his.2] at hput
    exact ⟨⟨t', hput⟩, fun t'' value hput' => hput'.unique hput⟩
  latest t name sec pt h := by
    obtain ⟨v, hread, hopen⟩ := answered (answer_opens s) h.1 h.2
    obtain ⟨j, e, hj, hasked⟩ := Pool.history_origin (Nat.le_refl _) rfl
      (Interleave.mem_own.mp hread)
    obtain ⟨-, -, hexec⟩ := exec_db_ok hasked.exec
    have hnewest := latest_eq_some (Except.ok.inj (Prod.mk.inj hexec).1)
    obtain ⟨-, t', hput⟩ := putOf_opened hj.le hnewest.mem hopen
    exact ⟨j, e, v, hasked, hnewest, ⟨t', hput⟩, fun t'' value hput' => hput'.unique hput⟩
  stored t name value contentType actor v h := by
    obtain ⟨m, u, hstores, hid, hnum⟩ := stores_of_answer (Nat.le_refl _) h.2
    exact ⟨⟨name, contentType, actor, h.1⟩, m, u, hstores, hid, congrArg Int.ofNat hnum⟩
  kept i j hij hj v hv v' hv' := kept_upto hij hj hv hv'
  destroyed i j hij hj v hv hd v' hv' hid hnum sec p hopen := by
    obtain ⟨hd', -⟩ := openVersion_eq_ok hopen
    rcases kept_upto hij hj hv hv' hid hnum with rfl | rfl
    · rw [hd] at hd'
      cases hd'
    · cases hd'

end Law

end Goca.Vault
