import Mathlib.Data.List.Nodup
import Goca.Vault.Step

/-!
# The numbers of versions

The versions of a secret are `1..currentVersion`, one row each, in every state of every run, however
many replicas write versions of it at once; and no two of them answer with the same number. A writer
counts the secret up in its transaction, so the row of the secret is locked until the transaction
ends, and a transaction commits only what it has inserted under the number that it counted.
-/

set_option autoImplicit false

namespace Goca.Vault

open Goca.Pqcrypt (Bytes)
open Sql (Table)
open Interleave (Act Event Pool Prog Sem Trace own)
open Interleave.Act

/-! ## The tables -/

/-- **The versions of a secret are dense**, and what open transactions hold comes next. -/
structure Tables.Dense (t : Tables) : Prop where
  /-- Every version belongs to a secret that has counted it. -/
  counted : ∀ v ∈ t.versions.rows, ∃ sec, t.secrets.get? v.secretID = some sec ∧ 1 ≤ v.version ∧
    v.version ≤ sec.currentVersion
  filled : ∀ sec ∈ t.secrets.rows, ∀ n, 1 ≤ n → n ≤ sec.currentVersion →
    ∃ v ∈ t.versions.rows, v.secretID = sec.id ∧ v.version = n
  single : ∀ v ∈ t.versions.rows, ∀ v' ∈ t.versions.rows, v.secretID = v'.secretID →
    v.version = v'.version → v = v'
  /-- A reserved number is the next one of its secret. -/
  next : ∀ x ∈ t.txs.rows, ∀ sid n, x.reserved = some (sid, n) →
    ∃ sec, t.secrets.get? sid = some sec ∧ n = sec.currentVersion + 1
  /-- No two transactions have reserved a number of one secret. -/
  alone : ∀ x ∈ t.txs.rows, ∀ x' ∈ t.txs.rows, ∀ sid n n', x.reserved = some (sid, n) →
    x'.reserved = some (sid, n') → x = x'
  fits : ∀ x ∈ t.txs.rows, ∀ v, x.inserted = some v → x.reserved = some (v.secretID, v.version)
  numbered : ∀ x ∈ t.txs.rows, x.id ≠ 0

/-- What a statement must find for the versions to stay dense: a transaction reserves a number
before it inserts a version, inserts under the number that it reserved, and commits what it has
inserted. -/
def Tables.Admits (t : Tables) : DbStmt → Prop
  | .insertSecret s => s.currentVersion = 0
  | .reserveVersion tx _ => ∀ x, t.txs.get? tx = some x → x.inserted = none
  | .insertVersion tx v => ∀ x, t.txs.get? tx = some x → x.reserved = some (v.secretID, v.version)
  | .commit tx => ∀ x, t.txs.get? tx = some x → x.inserted ≠ none
  | _ => True

theorem dense_empty : Tables.empty.Dense :=
  ⟨fun _ h => absurd h List.not_mem_nil, fun _ h => absurd h List.not_mem_nil,
    fun _ h => absurd h List.not_mem_nil, fun _ h => absurd h List.not_mem_nil,
    fun _ h => absurd h List.not_mem_nil, fun _ h => absurd h List.not_mem_nil,
    fun _ h => absurd h List.not_mem_nil⟩

section Dense

variable {t t' : Tables}

/-- A secret is a row of its own. -/
theorem get?_secret {sec : Secret} (h : sec ∈ t.secrets.rows) :
    t.secrets.get? sec.id = some sec := Table.get?_of_mem h

theorem secret_id {sid : Nat} {sec : Secret} (h : t.secrets.get? sid = some sec) : sec.id = sid :=
  Table.key_of_get? h

theorem tx_id {tx : Nat} {x : Tx} (h : t.txs.get? tx = some x) : x.id = tx := Table.key_of_get? h

/-- A statement within an open transaction. -/
theorem within_cases {α : Type} (t : Tables) (tx : Nat)
    {f : Tx → Except Go.Error α × Tables} :
    (t.txs.get? tx = none ∧ t.within tx f = (.error errTxDone, t)) ∨
      ∃ x, t.txs.get? tx = some x ∧ t.within tx f = f x := by
  unfold Tables.within
  cases hx : t.txs.get? tx with
  | none => exact .inl ⟨rfl, rfl⟩
  | some x => exact .inr ⟨x, rfl, rfl⟩

/-- A transaction after one of them was rewritten. -/
theorem mem_updateTx {tx : Nat} {f : Tx → Tx} {hf : ∀ x, (f x).id = x.id} {x' : Tx}
    (h : x' ∈ (t.updateTx tx f hf).txs.rows) :
    (x' ∈ t.txs.rows ∧ x'.id ≠ tx) ∨ ∃ x ∈ t.txs.rows, x.id = tx ∧ x' = f x := by
  obtain ⟨x, hx, rfl⟩ := List.mem_map.mp h
  by_cases hid : x.id = tx
  · exact .inr ⟨x, hx, hid, if_pos (beq_iff_eq.mpr hid)⟩
  · rw [if_neg (fun heq => hid (beq_iff_eq.mp heq))]
    exact .inl ⟨hx, hid⟩

/-- Tables with the same secrets and versions, and fewer transactions. -/
theorem Tables.Dense.congr (h : t.Dense) (hsecrets : t'.secrets = t.secrets)
    (hversions : t'.versions = t.versions) (htxs : ∀ x ∈ t'.txs.rows, x ∈ t.txs.rows) :
    t'.Dense := by
  refine ⟨?_, ?_, ?_, ?_, ?_, ?_, ?_⟩
  · rw [hsecrets, hversions]
    exact h.counted
  · rw [hsecrets, hversions]
    exact h.filled
  · rw [hversions]
    exact h.single
  · rw [hsecrets]
    exact fun x hx => h.next x (htxs x hx)
  · exact fun x hx x' hx' => h.alone x (htxs x hx) x' (htxs x' hx')
  · exact fun x hx => h.fits x (htxs x hx)
  · exact fun x hx => h.numbered x (htxs x hx)

/-- An update of secrets that does not count. -/
theorem Tables.Dense.updateSecrets (h : t.Dense) (id : Nat) {f : Secret → Secret}
    (hf : ∀ s, (f s).id = s.id) (hcount : ∀ s, (f s).currentVersion = s.currentVersion) :
    (t.updateSecrets id f hf).Dense := by
  have hget {sid : Nat} {sec : Secret} (hsec : t.secrets.get? sid = some sec) :
      ∃ sec', (t.secrets.update (·.id == id) f hf).get? sid = some sec' ∧
        sec'.currentVersion = sec.currentVersion := by
    rw [Table.get?_update, hsec, Option.map_some]
    refine ⟨_, rfl, ?_⟩
    split
    · exact hcount sec
    · rfl
  refine ⟨?_, ?_, h.single, ?_, h.alone, h.fits, h.numbered⟩
  · intro v hv
    obtain ⟨sec, hsec, hpos, hle⟩ := h.counted v hv
    obtain ⟨sec', hsec', hcv⟩ := hget hsec
    exact ⟨sec', hsec', hpos, hcv ▸ hle⟩
  · intro sec' hsec' n hpos hle
    obtain ⟨sec, hsec, rfl⟩ := List.mem_map.mp hsec'
    have hsame : (if sec.id == id then f sec else sec).currentVersion = sec.currentVersion ∧
        (if sec.id == id then f sec else sec).id = sec.id := by
      split
      · exact ⟨hcount sec, hf sec⟩
      · exact ⟨rfl, rfl⟩
    rw [hsame.1] at hle
    rw [hsame.2]
    exact h.filled sec hsec n hpos hle
  · intro x hx sid n hres
    obtain ⟨sec, hsec, hn⟩ := h.next x hx sid n hres
    obtain ⟨sec', hsec', hcv⟩ := hget hsec
    exact ⟨sec', hsec', hcv ▸ hn⟩

theorem Tables.Dense.insertSecret (h : t.Dense) (s : Secret) (hs : s.currentVersion = 0) :
    ({ t with secrets := t.secrets.insert (fun id => { s with id }) fun _ => rfl } :
      Tables).Dense := by
  refine ⟨?_, ?_, h.single, ?_, h.alone, h.fits, h.numbered⟩
  · intro v hv
    obtain ⟨sec, hsec, hbounds⟩ := h.counted v hv
    exact ⟨sec, Table.get?_insert_of_some hsec _ _, hbounds⟩
  · intro sec hsec n hpos hle
    rcases Table.mem_insert.mp hsec with hold | rfl
    · exact h.filled sec hold n hpos hle
    · have hzero : n ≤ 0 := hs ▸ hle
      omega
  · intro x hx sid n hres
    obtain ⟨sec, hsec, hn⟩ := h.next x hx sid n hres
    exact ⟨sec, Table.get?_insert_of_some hsec _ _, hn⟩

/-- A secret is deleted with its versions, and none of its numbers is reserved. -/
theorem Tables.Dense.deleteSecret (h : t.Dense) {id : Nat} (hfree : t.locked 0 id = false) :
    ({ t with
      secrets := t.secrets.delete (·.id == id)
      versions := t.versions.delete (·.secretID == id)
      bindings := t.bindings.delete (·.secretID == id) } : Tables).Dense := by
  have hkept {sid : Nat} {sec : Secret} (hsec : t.secrets.get? sid = some sec) (hne : sid ≠ id) :
      (t.secrets.delete (·.id == id)).get? sid = some sec :=
    Table.get?_delete.mpr ⟨hsec, beq_false_of_ne (secret_id hsec ▸ hne)⟩
  refine ⟨?_, ?_, ?_, ?_, h.alone, h.fits, h.numbered⟩
  · intro v hv
    obtain ⟨hv, hne⟩ := Table.mem_delete.mp hv
    obtain ⟨sec, hsec, hbounds⟩ := h.counted v hv
    exact ⟨sec, hkept hsec (ne_of_beq_false hne), hbounds⟩
  · intro sec hsec n hpos hle
    obtain ⟨hsec, hne⟩ := Table.mem_delete.mp hsec
    obtain ⟨v, hv, hid, hn⟩ := h.filled sec hsec n hpos hle
    exact ⟨v, Table.mem_delete.mpr ⟨hv, hid ▸ hne⟩, hid, hn⟩
  · intro v hv v' hv'
    exact h.single v (Table.mem_delete.mp hv).1 v' (Table.mem_delete.mp hv').1
  · intro x hx sid n hres
    obtain ⟨sec, hsec, hn⟩ := h.next x hx sid n hres
    refine ⟨sec, hkept hsec ?_, hn⟩
    rintro rfl
    have hlocked : t.locked 0 sid = true := by
      refine List.any_eq_true.mpr ⟨x, hx, ?_⟩
      rw [hres, Option.any_some, beq_self_eq_true, Bool.and_true, bne_iff_ne]
      exact h.numbered x hx
    rw [hlocked] at hfree
    cases hfree

theorem Tables.Dense.begin (h : t.Dense) :
    ({ t with txs := t.txs.insert (fun id => ⟨id, none, none⟩) fun _ => rfl } : Tables).Dense := by
  refine ⟨h.counted, h.filled, h.single, ?_, ?_, ?_, ?_⟩
  · intro x hx sid n hres
    rcases Table.mem_insert.mp hx with hx | rfl
    · exact h.next x hx sid n hres
    · cases hres
  · intro x hx x' hx' sid n n' hres hres'
    rcases Table.mem_insert.mp hx with hx | rfl
    · rcases Table.mem_insert.mp hx' with hx' | rfl
      · exact h.alone x hx x' hx' sid n n' hres hres'
      · cases hres'
    · cases hres
  · intro x hx v hv
    rcases Table.mem_insert.mp hx with hx | rfl
    · exact h.fits x hx v hv
    · cases hv
  · intro x hx
    rcases Table.mem_insert.mp hx with hx | rfl
    · exact h.numbered x hx
    · exact Nat.succ_ne_zero _

/-- **A reservation**: the transaction holds the next number of a secret that nobody else has
locked. -/
theorem Tables.Dense.reserve (h : t.Dense) {tx : Nat} {sec : Secret} {sid : Nat}
    (hsec : t.secrets.get? sid = some sec) (hfree : t.locked tx sid = false)
    (hblank : ∀ x, t.txs.get? tx = some x → x.inserted = none) :
    (t.updateTx tx (fun x => { x with reserved := some (sid, sec.currentVersion + 1) })
      fun _ => rfl).Dense := by
  have hothers {x : Tx} (hx : x ∈ t.txs.rows) {n : Nat} (hres : x.reserved = some (sid, n)) :
      x.id = tx := by
    by_contra hne
    have hlocked : t.locked tx sid = true := by
      refine List.any_eq_true.mpr ⟨x, hx, ?_⟩
      rw [hres, Option.any_some, beq_self_eq_true, Bool.and_true, bne_iff_ne]
      exact hne
    rw [hlocked] at hfree
    cases hfree
  refine ⟨h.counted, h.filled, h.single, ?_, ?_, ?_, ?_⟩
  · intro x' hx' sid' n hres
    rcases mem_updateTx hx' with ⟨hx, -⟩ | ⟨x, -, -, rfl⟩
    · exact h.next x' hx sid' n hres
    · cases hres
      exact ⟨sec, hsec, rfl⟩
  · intro x' hx' y' hy' sid' n n' hres hres'
    rcases mem_updateTx hx' with ⟨hx, hne⟩ | ⟨x, hx, hid, rfl⟩
    · rcases mem_updateTx hy' with ⟨hy, -⟩ | ⟨y, -, -, rfl⟩
      · exact h.alone x' hx y' hy sid' n n' hres hres'
      · cases hres'
        exact absurd (hothers hx hres) hne
    · rcases mem_updateTx hy' with ⟨hy, hne⟩ | ⟨y, hy, hid', rfl⟩
      · cases hres
        exact absurd (hothers hy hres') hne
      · rw [Table.eq_of_key_eq hx hy (hid.trans hid'.symm)]
  · intro x' hx' v hv
    rcases mem_updateTx hx' with ⟨hx, -⟩ | ⟨x, hx, rfl, rfl⟩
    · exact h.fits x' hx v hv
    · have hnone : x.inserted = none := hblank x (Table.get?_of_mem hx)
      exact absurd (hnone.symm.trans hv) nofun
  · intro x' hx'
    rcases mem_updateTx hx' with ⟨hx, -⟩ | ⟨x, hx, -, rfl⟩
    · exact h.numbered x' hx
    · exact h.numbered x hx

/-- An insertion under the number that the transaction reserved. -/
theorem Tables.Dense.insertVersion (h : t.Dense) {tx : Nat} {v : SecretVersion}
    (hres : ∀ x, t.txs.get? tx = some x → x.reserved = some (v.secretID, v.version)) :
    (t.updateTx tx (fun x => { x with inserted := some v }) fun _ => rfl).Dense := by
  have hrows {x' : Tx} (hx' : x' ∈ (t.updateTx tx (fun x => { x with inserted := some v })
      fun _ => rfl).txs.rows) :
      ∃ x ∈ t.txs.rows, x.id = x'.id ∧ x.reserved = x'.reserved ∧
        (x' = x ∨ x'.inserted = some v ∧ x.id = tx) := by
    rcases mem_updateTx hx' with ⟨hx, -⟩ | ⟨x, hx, hid, rfl⟩
    · exact ⟨x', hx, rfl, rfl, .inl rfl⟩
    · exact ⟨x, hx, rfl, rfl, .inr ⟨rfl, hid⟩⟩
  refine ⟨h.counted, h.filled, h.single, ?_, ?_, ?_, ?_⟩
  · intro x' hx' sid n hn
    obtain ⟨x, hx, -, hsame, -⟩ := hrows hx'
    exact h.next x hx sid n (hsame.trans hn)
  · intro x' hx' y' hy' sid n n' hn hn'
    obtain ⟨x, hx, hid, hsame, -⟩ := hrows hx'
    obtain ⟨y, hy, hid', hsame', -⟩ := hrows hy'
    obtain rfl := h.alone x hx y hy sid n n' (hsame.trans hn) (hsame'.trans hn')
    exact Table.eq_of_key_eq hx' hy' (hid.symm.trans hid')
  · intro x' hx' v' hv'
    obtain ⟨x, hx, hid, hsame, rfl | ⟨hins, htx⟩⟩ := hrows hx'
    · exact h.fits x' hx v' hv'
    · obtain rfl : v = v' := Option.some.inj (hins.symm.trans hv')
      exact hsame.symm.trans (hres x (htx ▸ Table.get?_of_mem hx))
  · intro x' hx'
    obtain ⟨x, hx, hid, -⟩ := hrows hx'
    exact hid ▸ h.numbered x hx

/-- A commit counts the secret up whose number its transaction has reserved. -/
theorem get?_commitTx {x : Tx} {id n sid : Nat} {sec : Secret} (hres : x.reserved = some (id, n))
    (hsec : t.secrets.get? sid = some sec) : (t.commitTx x).secrets.get? sid =
      some (if sid = id then { sec with currentVersion := n } else sec) := by
  have hsecrets : (t.commitTx x).secrets = t.secrets.update (·.id == id)
      (fun s => { s with currentVersion := n }) fun _ => rfl := by
    unfold Tables.commitTx
    rw [hres]
  rw [hsecrets, Table.get?_update, hsec, Option.map_some, secret_id hsec]
  simp only [beq_iff_eq]

/-- **A commit** adds the next version of its secret. -/
theorem Tables.Dense.commit (h : t.Dense) {x : Tx} (hx : x ∈ t.txs.rows) {v : SecretVersion}
    (hv : x.inserted = some v) : (t.commitTx x).Dense := by
  have hres := h.fits x hx v hv
  obtain ⟨sec, hsec, hn⟩ := h.next x hx _ _ hres
  have hsecrets : (t.commitTx x).secrets = t.secrets.update (·.id == v.secretID)
      (fun s => { s with currentVersion := v.version }) fun _ => rfl := by
    unfold Tables.commitTx
    rw [hres]
  have hversions : (t.commitTx x).versions =
      t.versions.insert (fun id => { v with id, destroyed := false }) fun _ => rfl := by
    unfold Tables.commitTx
    rw [hv]
  have hnew : (t.commitTx x).secrets.get? v.secretID =
      some { sec with currentVersion := v.version } := by rw [get?_commitTx hres hsec, if_pos rfl]
  refine ⟨?_, ?_, ?_, ?_, ?_, ?_, ?_⟩
  · intro v' hv'
    rw [hversions] at hv'
    rcases Table.mem_insert.mp hv' with hold | rfl
    · obtain ⟨sec', hsec', hpos, hle⟩ := h.counted v' hold
      refine ⟨_, get?_commitTx hres hsec', hpos, ?_⟩
      split
      · next hsame =>
        rw [hsame, hsec, Option.some.injEq] at hsec'
        subst hsec'
        show v'.version ≤ v.version
        omega
      · exact hle
    · exact ⟨_, hnew, hn ▸ Nat.succ_le_succ (Nat.zero_le _), Nat.le_refl _⟩
  · intro sec' hsec' n hpos hle
    rw [hversions]
    rw [hsecrets] at hsec'
    obtain ⟨s, hs, rfl⟩ := Table.mem_update.mp hsec'
    by_cases hid : s.id = v.secretID
    · rw [if_pos (beq_iff_eq.mpr hid)] at hle ⊢
      obtain rfl : s = sec := Option.some.inj ((hid ▸ get?_secret hs).symm.trans hsec)
      by_cases hlast : n = v.version
      · exact ⟨_, Table.mem_insert.mpr (.inr rfl), hid.symm, hlast.symm⟩
      · have hle : n ≤ v.version := hle
        obtain ⟨v', hv', hid', hn'⟩ := h.filled s hs n hpos (by omega)
        exact ⟨v', Table.mem_insert.mpr (.inl hv'), hid', hn'⟩
    · rw [if_neg (by simpa using hid)] at hle ⊢
      obtain ⟨v', hv', hid', hn'⟩ := h.filled s hs n hpos hle
      exact ⟨v', Table.mem_insert.mpr (.inl hv'), hid', hn'⟩
  · -- no version of the secret has the new number yet
    have hfresh {v' : SecretVersion} (hv' : v' ∈ t.versions.rows) (hid : v'.secretID = v.secretID) :
        v'.version ≠ v.version := by
      obtain ⟨sec', hsec', -, hle⟩ := h.counted v' hv'
      rw [hid, hsec, Option.some.injEq] at hsec'
      subst hsec'
      omega
    intro v₁ hv₁ v₂ hv₂ hid hnum
    rw [hversions] at hv₁ hv₂
    rcases Table.mem_insert.mp hv₁ with hv₁ | rfl
    · rcases Table.mem_insert.mp hv₂ with hv₂ | rfl
      · exact h.single v₁ hv₁ v₂ hv₂ hid hnum
      · exact absurd hnum (hfresh hv₁ hid)
    · rcases Table.mem_insert.mp hv₂ with hv₂ | rfl
      · exact absurd hnum.symm (hfresh hv₂ hid.symm)
      · rfl
  · intro y hy sid n hresy
    obtain ⟨hy, hne⟩ := Table.mem_delete.mp hy
    obtain ⟨sec', hsec', hn'⟩ := h.next y hy sid n hresy
    refine ⟨_, get?_commitTx hres hsec', ?_⟩
    rw [if_neg]
    · exact hn'
    · rintro rfl
      obtain rfl := h.alone y hy x hx _ _ _ hresy hres
      exact ne_of_beq_false hne rfl
  · intro y hy y' hy'
    exact h.alone y (Table.mem_delete.mp hy).1 y' (Table.mem_delete.mp hy').1
  · exact fun y hy => h.fits y (Table.mem_delete.mp hy).1
  · exact fun y hy => h.numbered y (Table.mem_delete.mp hy).1

/-- What is left of a version that is destroyed keeps its number. -/
theorem Tables.Dense.scrub (h : t.Dense) (id : Nat) :
    ({ t with versions := t.versions.update (·.id == id) SecretVersion.scrub fun _ => rfl } :
      Tables).Dense := by
  have hrows {v' : SecretVersion} (hv' : v' ∈ (t.versions.update (·.id == id) SecretVersion.scrub
      fun _ => rfl).rows) : ∃ v ∈ t.versions.rows, v'.id = v.id ∧ v'.secretID = v.secretID ∧
        v'.version = v.version := by
    obtain ⟨v, hv, rfl⟩ := Table.mem_update.mp hv'
    refine ⟨v, hv, ?_⟩
    split
    · exact ⟨rfl, rfl, rfl⟩
    · exact ⟨rfl, rfl, rfl⟩
  refine ⟨?_, ?_, ?_, h.next, h.alone, h.fits, h.numbered⟩
  · intro v' hv'
    obtain ⟨v, hv, -, hid, hnum⟩ := hrows hv'
    rw [hid, hnum]
    exact h.counted v hv
  · intro sec hsec n hpos hle
    obtain ⟨v, hv, hid, hn⟩ := h.filled sec hsec n hpos hle
    refine ⟨_, List.mem_map.mpr ⟨v, hv, rfl⟩, ?_⟩
    split
    · exact ⟨hid, hn⟩
    · exact ⟨hid, hn⟩
  · intro v₁ hv₁ v₂ hv₂ hid hnum
    obtain ⟨u₁, hu₁, hkey₁, hid₁, hnum₁⟩ := hrows hv₁
    obtain ⟨u₂, hu₂, hkey₂, hid₂, hnum₂⟩ := hrows hv₂
    have hsame : u₁ = u₂ := h.single u₁ hu₁ u₂ hu₂ (hid₁ ▸ hid₂ ▸ hid) (hnum₁ ▸ hnum₂ ▸ hnum)
    exact Table.eq_of_key_eq hv₁ hv₂ (hkey₁.trans (hsame ▸ hkey₂.symm))

/-- **A statement keeps the versions dense.** -/
theorem dense_exec {certs : Table Store.Certificate} (h : t.Dense) {s : DbStmt}
    (hwaits : t.waits s = false) (hs : t.Admits s) : (t.exec certs s).2.Dense := by
  cases s with
  | insertSecret s =>
    simp only [Tables.exec]
    split
    · exact h
    · exact h.insertSecret s hs
  | updateSecretMeta id description labelsJSON rotationDays =>
    exact h.updateSecrets (f := fun s => { s with description, labelsJSON, rotationDays }) id
      (fun _ => rfl) fun _ => rfl
  | setSecretDisabled id disabled =>
    exact h.updateSecrets (f := fun s => { s with disabled }) id (fun _ => rfl) fun _ => rfl
  | deleteSecret id => exact h.deleteSecret hwaits
  | begin => exact h.begin
  | reserveVersion tx sid =>
    simp only [Tables.exec]
    rcases within_cases t tx with ⟨-, heq⟩ | ⟨x, hx, heq⟩
    · rw [heq]
      exact h
    · rw [heq]
      cases hsec : t.secrets.get? sid with
      | none => exact h
      | some sec => exact h.reserve hsec hwaits hs
  | insertVersion tx v =>
    simp only [Tables.exec]
    rcases within_cases t tx with ⟨-, heq⟩ | ⟨x, hx, heq⟩
    · rw [heq]
      exact h
    · rw [heq]
      split
      · exact h
      · exact h.insertVersion hs
  | commit tx =>
    simp only [Tables.exec]
    rcases within_cases t tx with ⟨-, heq⟩ | ⟨x, hx, heq⟩
    · rw [heq]
      exact h
    · rw [heq]
      obtain ⟨v, hv⟩ := Option.ne_none_iff_exists'.mp (hs x hx)
      exact h.commit (Table.mem_of_get? hx) hv
  | rollback tx =>
    simp only [Tables.exec]
    rcases within_cases t tx with ⟨-, heq⟩ | ⟨x, hx, heq⟩
    · rw [heq]
      exact h
    · rw [heq]
      exact h.congr rfl rfl fun x hx => (Table.mem_delete.mp hx).1
  | destroyVersion id => exact h.scrub id
  | insertBinding b =>
    simp only [Tables.exec]
    split
    · exact h
    · exact h.congr rfl rfl fun _ hx => hx
  | deleteBinding id => exact h.congr rfl rfl fun _ hx => hx
  | selectSecret _ => exact h
  | selectSecretByName _ => exact h
  | listSecrets _ => exact h
  | selectVersion _ _ => exact h
  | selectLatestVersion _ => exact h
  | listVersions _ => exact h
  | selectBinding _ => exact h
  | listBindings _ => exact h

end Dense

/-! ## What a writer asks -/

/-- A statement over the vault tables is on a trace, with its answer. -/
abbrev Asked (q : Trace sig) (s : DbStmt) (x : Except Go.Error s.Res) : Prop :=
  (⟨.inr (.db s), x⟩ : (s : sig.Stmt) × sig.Ans s) ∈ q

/-- The statements that write a transaction. -/
def DbStmt.into (tx : Nat) : DbStmt → Prop
  | .reserveVersion i _ | .insertVersion i _ => i = tx
  | _ => False

/-- The statements of a call that changes nothing. -/
abbrev Quiet : sig.Stmt → Prop := (Call.getLatest "").asks

theorem not_quiet_of_into {tx : Nat} {d : DbStmt} (h : d.into tx) : ¬Quiet (.inr (.db d)) := by
  cases d <;> first | exact h.elim | exact fun hq => hq.elim id id

/-- The row that `Put` inserts: its value, sealed for one number of one secret. -/
def Service.written (s : Service) (d : Pqcrypt.Draws) (value : Bytes) (contentType : String)
    (sid n : Nat) : SecretVersion where
  secretID := sid
  version := n
  payloadEnc := s.vault.sealWith d value (aad sid n)
  payloadSHA256 := ⟨value⟩
  sizeBytes := value.length
  contentType

/-- **What a call has done before it writes**: it opens the transaction itself, reserves one number
in it, inserts one version under that number, which is its own value sealed, and then commits. -/
def VersionWarrant (s : Service) (c : Call) (q : Trace sig) : sig.Stmt → Prop
  | .inr (.db (.reserveVersion tx _)) => Asked q .begin (.ok tx) ∧
      ∀ d x, d.into tx → ¬Asked q d x
  | .inr (.db (.insertVersion tx v)) => Asked q .begin (.ok tx) ∧
      Asked q (.reserveVersion tx v.secretID) (.ok (some v.version)) ∧
      (∀ v' x, ¬Asked q (.insertVersion tx v') x) ∧
      ∃ name value contentType actor d, c = .request (.put name value contentType actor) ∧
        v = s.written d value contentType v.secretID v.version
  | .inr (.db (.commit tx)) => Asked q .begin (.ok tx) ∧
      ∃ v, Asked q (.insertVersion tx v) (.ok ())
  | _ => True

/-- The trace of a call that has committed a version. -/
def Committed (q : Trace sig) (v : SecretVersion) : Prop :=
  ∃ tx q₁, Asked q₁ (.insertVersion tx v) (.ok ()) ∧
    q₁ ++ [(⟨.inr (.db (.commit tx)), .ok ()⟩ : (s : sig.Stmt) × sig.Ans s)] <+: q

/-- What `Put` has done when it answers with a version. -/
def PutDone (q : Trace sig) (v : SecretVersion) : Prop :=
  ∃ u, Committed q u ∧ Asked q (.selectVersion u.secretID u.version) (.ok (some v))

section Writer

variable {ε α : Type} {s : Service} {c : Call} {q : Trace sig}

theorem warrant_of_quiet {st : sig.Stmt} (h : Quiet st) : VersionWarrant s c q st := by
  unfold VersionWarrant
  split
  · exact h.elim (fun h => h.elim) fun h => h.elim
  · exact h.elim (fun h => h.elim) fun h => h.elim
  · exact h.elim (fun h => h.elim) fun h => h.elim
  · trivial

/-- A call that is no `Put` writes no version. -/
theorem warrant_of_asks (hc : ∀ name value contentType actor,
    c ≠ .request (.put name value contentType actor)) {st : sig.Stmt} (h : c.asks st) :
    VersionWarrant s c q st := by
  have hnot {d : DbStmt} (hd : ¬d.reads) (hw : c.writes d) (htx : ∀ i, d ≠ .rollback i)
      (hput : Call.writes (.request (.put "" [] "" "")) d) : False := by
    unfold Call.writes at hw
    split at hw <;> first | exact hput | exact hw | exact htx _ rfl | exact hc _ _ _ _ rfl
  unfold VersionWarrant
  split
  · exact (hnot id (h.resolve_left id) nofun trivial).elim
  · exact (hnot id (h.resolve_left id) nofun trivial).elim
  · exact (hnot id (h.resolve_left id) nofun trivial).elim
  · trivial

/-- One statement with its answer read. -/
theorem answer_traced {may : Trace sig → sig.Stmt → Prop} {ok : Trace sig → α → Prop} {st : DbStmt}
    {f : Except Go.Error st.Res → Except ε α} (hmay : may q (.inr (.db st)))
    (hok : ∀ x a, f x = .ok a → ok (q ++ [⟨.inr (.db st), x⟩]) a) :
    ((db st).mapResult f).Traced may ok q :=
  Prog.traced_ask.mpr ⟨hmay, fun x => Prog.traced_pure.mpr fun a ha => hok x a ha⟩

theorem db_traced {may : Trace sig → sig.Stmt → Prop} {st : DbStmt}
    {ok : Trace sig → st.Res → Prop} (hmay : may q (.inr (.db st)))
    (hok : ∀ a, ok (q ++ [⟨.inr (.db st), .ok a⟩]) a) : (db st).Traced may ok q :=
  Prog.traced_ask.mpr ⟨hmay, fun x => Prog.traced_pure.mpr fun a ha => by
    cases ha
    exact hok a⟩

theorem asked_last {st : DbStmt} {x : Except Go.Error st.Res} :
    Asked (q ++ [⟨.inr (.db st), x⟩]) st x := List.mem_append_right _ (List.mem_singleton_self _)

theorem Asked.snoc {st : DbStmt} {x : Except Go.Error st.Res} (h : Asked q st x)
    (e : (s : sig.Stmt) × sig.Ans s) : Asked (q ++ [e]) st x := List.mem_append_left _ h

theorem Committed.snoc {v : SecretVersion} (h : Committed q v)
    (e : (s : sig.Stmt) × sig.Ans s) : Committed (q ++ [e]) v := by
  obtain ⟨tx, q₁, hinserted, hq⟩ := h
  exact ⟨tx, q₁, hinserted, hq.trans (List.prefix_append q [e])⟩

theorem row_eq_ok {R : Type} {x : Except Go.Error (Option R)} {r : R} (h : Store.row x = .ok r) :
    x = .ok (some r) := by
  cases x with
  | error e => cases h
  | ok o =>
    cases o with
    | none => cases h
    | some r' =>
      cases h
      rfl

/-- **A version is written** under the number that was reserved for it. -/
theorem writeVersion_traced {name : String} {value : Bytes} {contentType actor : String}
    (hc : c = .request (.put name value contentType actor)) {tx : Nat} (sid : Nat)
    (hbegun : Asked q .begin (.ok tx)) (hfresh : ∀ d x, d.into tx → ¬Asked q d x) :
    (writeVersion tx sid contentType (s.sealFor value)).Traced (VersionWarrant s c)
      (fun q n => Asked q .begin (.ok tx) ∧
        ∃ v, Asked q (.insertVersion tx v) (.ok ()) ∧ v.secretID = sid ∧ v.version = n) q := by
  unfold writeVersion
  refine Traced.bind (m := fun q n => Asked q .begin (.ok tx) ∧
    Asked q (.reserveVersion tx sid) (.ok (some n)) ∧ ∀ v x, ¬Asked q (.insertVersion tx v) x)
    (answer_traced ⟨hbegun, hfresh⟩ ?_) ?_
  · intro x n hn
    obtain rfl := row_eq_ok hn
    refine ⟨hbegun.snoc _, asked_last, fun v x hv => ?_⟩
    rcases List.mem_append.mp hv with hv | hv
    · exact hfresh (.insertVersion tx v) x rfl hv
    · cases List.mem_singleton.mp hv
  · rintro q₁ n - ⟨hbegun, hreserved, hnone⟩
    -- sealing asks nothing of the database
    refine Traced.bind (m := fun q sealed => (Asked q .begin (.ok tx) ∧
      Asked q (.reserveVersion tx sid) (.ok (some n)) ∧ ∀ v x, ¬Asked q (.insertVersion tx v) x) ∧
      ∃ d, sealed = s.sealed d value sid n) ?_ ?_
    · refine Traced.bind (m := fun q _ => Asked q .begin (.ok tx) ∧
        Asked q (.reserveVersion tx sid) (.ok (some n)) ∧ ∀ v x, ¬Asked q (.insertVersion tx v) x)
        (Uses.keeps ((draws_asks (c := .getLatest "")).mapError _)
          (fun _ _ _ hs => warrant_of_quiet hs) ?_ ⟨hbegun, hreserved, hnone⟩) ?_
      · rintro q' st x ⟨hb, hr, hn⟩ hquiet
        refine ⟨hb.snoc _, hr.snoc _, fun v y hv => ?_⟩
        rcases List.mem_append.mp hv with hv | hv
        · exact hn v y hv
        · cases List.mem_singleton.mp hv
          exact not_quiet_of_into (d := .insertVersion tx v) rfl hquiet
      · exact fun q' d _ hkept => traced_pure ⟨hkept, d, rfl⟩
    · rintro q₂ sealed - ⟨⟨hbegun, hreserved, hnone⟩, d, rfl⟩
      have hinsert : (db (.insertVersion tx (s.written d value contentType sid n))).Traced
          (VersionWarrant s c) (fun q _ => Asked q .begin (.ok tx) ∧
            Asked q (.insertVersion tx (s.written d value contentType sid n)) (.ok ())) q₂ :=
        db_traced ⟨hbegun, hreserved, hnone, name, value, contentType, actor, d, hc, rfl⟩
          fun _ => ⟨hbegun.snoc _, asked_last⟩
      exact hinsert.bind fun q' _ _ ⟨hb, hi⟩ => traced_pure ⟨hb, _, hi, rfl, rfl⟩

/-- **`Put`** answers with the version that it has committed. -/
theorem put_traced {name : String} {value : Bytes} {contentType actor : String}
    (hc : c = .request (.put name value contentType actor)) :
    (s.put name value contentType actor).Traced (VersionWarrant s c) PutDone [] := by
  have hquiet {β : Type} {x : Handler Go.Error β} (hx : x.Uses Quiet) {J : Trace sig → Prop}
      (hJ : ∀ q st a, J q → Quiet st → J (q ++ [⟨st, a⟩])) {q : Trace sig} (h : J q) :
      x.Traced (VersionWarrant s c) (fun q _ => J q) q :=
    hx.keeps (fun _ _ _ hs => warrant_of_quiet hs) hJ h
  -- before the transaction is opened nothing has been written into any
  have huntouched (q : Trace sig) (st : sig.Stmt) (a : sig.Ans st)
      (h : ∀ tx d x, d.into tx → ¬Asked q d x) (hst : Quiet st) :
      ∀ tx d x, d.into tx → ¬Asked (q ++ [⟨st, a⟩]) d x := by
    intro tx d x hd hasked
    rcases List.mem_append.mp hasked with hasked | hasked
    · exact h tx d x hd hasked
    · cases List.mem_singleton.mp hasked
      exact not_quiet_of_into hd hst
  unfold Service.put
  refine (hquiet (get_asks name) huntouched fun _ _ _ _ => List.not_mem_nil).bind ?_
  intro q₁ sec _ hfresh
  refine Traced.bind (m := fun q _ => q = q₁) (traced_failIf fun _ => rfl) ?_
  rintro q₂ - - rfl
  refine Traced.bind (m := fun q _ => q = q₂) (traced_failIf fun _ => rfl) ?_
  rintro q₃ - - rfl
  refine Traced.bind (m := PutDone) ?_ ?_
  · unfold createSecretVersion
    refine Traced.bind (m := fun q tx => Asked q .begin (.ok tx) ∧ ∀ d x, d.into tx → ¬Asked q d x)
      (db_traced trivial ?_) ?_
    · refine fun tx => ⟨asked_last, fun d x hd hasked => ?_⟩
      rcases List.mem_append.mp hasked with hasked | hasked
      · exact hfresh tx d x hd hasked
      · cases List.mem_singleton.mp hasked
        exact hd
    · rintro q₄ tx - ⟨hbegun, hnone⟩
      refine Traced.bind
        (m := fun q r => ∀ n, r = .ok n → Asked q .begin (.ok tx) ∧
          ∃ v, Asked q (.insertVersion tx v) (.ok ()) ∧ v.secretID = sec.id ∧ v.version = n)
        ((writeVersion_traced hc sec.id hbegun hnone).attempt fun _ _ _ h => h) ?_
      intro q₅ written _ hwritten
      cases written with
      | error err =>
        refine Traced.bind (m := fun _ _ => True) ?_ fun _ _ _ _ => traced_throw
        exact answer_traced trivial fun _ _ _ => trivial
      | ok next =>
        obtain ⟨hbegun, v, hinserted, hid, hnum⟩ := hwritten next rfl
        have hcommit : (db (.commit tx)).Traced (VersionWarrant s c) (fun q _ => Committed q v)
            q₅ :=
          db_traced ⟨hbegun, v, hinserted⟩ fun _ => ⟨tx, q₅, hinserted, List.prefix_rfl⟩
        refine hcommit.bind fun q₆ _ _ hcommitted => answer_traced trivial fun x a ha => ?_
        obtain rfl := row_eq_ok ha
        refine ⟨v, hcommitted.snoc _, ?_⟩
        rw [hid, hnum]
        exact asked_last
  · intro q₄ v _ hdone
    refine (hquiet (audit_asks _ _ _ _) (J := fun q => PutDone q v) ?_ hdone).bind ?_
    · rintro q st a ⟨u, hcommitted, hread⟩ -
      exact ⟨u, hcommitted.snoc _, hread.snoc _⟩
    · exact fun q _ _ h => traced_pure h

/-- What a call promises of the version that it answers with. -/
def VersionPromise (q : Trace sig) (r : Reply) : Prop := ∀ v, r = .version v → PutDone q v

theorem replying_traced {err : ε → Reply} {ok : α → Reply} {x : Handler ε α}
    {may : Trace sig → sig.Stmt → Prop} {m : Trace sig → α → Prop} {post : Trace sig → Reply → Prop}
    (hx : x.Traced may m q) (hok : ∀ q a, m q a → post q (ok a)) (herr : ∀ q e, post q (err e)) :
    (replying err ok x).Traced may post q :=
  Prog.Traced.bind hx fun q' r _ hr => by
    cases r with
    | ok a => exact Prog.traced_pure.mpr (hok q' a (hr a rfl))
    | error e => exact Prog.traced_pure.mpr (herr q' e)

/-- Only `Put` answers with a version. -/
theorem answer_other (s : Service) {c : Call} (hc : ∀ name value contentType actor,
    c ≠ .request (.put name value contentType actor)) :
    (s.answer c).Traced (fun _ _ => True) VersionPromise [] := by
  have hreplying {ε α : Type} {err : ε → Reply} {ok : α → Reply} {x : Handler ε α}
      (hok : ∀ a v, ok a ≠ .version v) (herr : ∀ e v, err e ≠ .version v) :
      (replying err ok x).Traced (fun _ _ => True) VersionPromise [] :=
    have hany : x.Traced (fun _ _ => True) (fun _ _ => True) [] :=
      traced_any x fun _ _ _ => trivial
    replying_traced hany (fun _ a _ v h => absurd h (hok a v)) fun _ e v h => absurd h (herr e v)
  cases c with
  | request r =>
    have hserve : s.answer (.request r) =
        replying .failed (fun _ => .done) (ExceptT.mk (s.serve r)) := by
      cases r with
      | put name value contentType actor => exact absurd rfl (hc _ _ _ _)
      | _ => rfl
    rw [hserve]
    exact hreplying (by rintro _ _ ⟨⟩) (by rintro _ _ ⟨⟩)
  | getLatest name => exact hreplying (by rintro _ _ ⟨⟩) (by rintro _ _ ⟨⟩)
  | getVersion name version => exact hreplying (by rintro _ _ ⟨⟩) (by rintro _ _ ⟨⟩)
  | vaultFetch id ip body => exact hreplying (by rintro _ _ ⟨⟩) (by rintro _ _ ⟨⟩)
  | esoFetch id ip key property all => exact hreplying (by rintro _ _ ⟨⟩) (by rintro _ _ ⟨⟩)
  | disconnect tx => exact hreplying (by rintro _ _ ⟨⟩) (by rintro _ _ ⟨⟩)

/-- **Every call** writes versions as `VersionWarrant` says. -/
theorem answer_versions (s : Service) (c : Call) :
    (s.answer c).Traced (VersionWarrant s c) VersionPromise [] := by
  by_cases hput : ∃ name value contentType actor, c = .request (.put name value contentType actor)
  · obtain ⟨name, value, contentType, actor, rfl⟩ := hput
    refine replying_traced (put_traced rfl) ?_ (by rintro _ _ _ ⟨⟩)
    rintro q a hdone v ⟨⟩
    exact hdone
  · have hc (name : String) (value : Bytes) (contentType actor : String) :
        c ≠ .request (.put name value contentType actor) := fun h => hput ⟨_, _, _, _, h⟩
    refine ((answer_other s hc).and_uses (answer_asks s c)).mono ?_ fun _ _ h => h
    exact fun _ _ h => warrant_of_asks hc h.2

end Writer

/-! ## The transactions of a history -/

/-- **What the open transactions hold** is what their owners have asked: each was opened by one
call, which nobody else writes into. -/
structure Ledger (h : List (Event sig)) (t : Tables) : Prop where
  known : ∀ u tx, Asked (own u h) .begin (.ok tx) → tx ≤ t.txs.seq
  owner : ∀ u u' tx, Asked (own u h) .begin (.ok tx) → Asked (own u' h) .begin (.ok tx) → u = u'
  begun : ∀ u tx d x, d.into tx → Asked (own u h) d x → Asked (own u h) .begin (.ok tx)
  reserved : ∀ r ∈ t.txs.rows, ∀ u sid n, Asked (own u h) (.reserveVersion r.id sid)
    (.ok (some n)) → r.reserved = some (sid, n)
  inserted : ∀ r ∈ t.txs.rows, ∀ u v, Asked (own u h) (.insertVersion r.id v) (.ok ()) →
    r.inserted = some v
  /-- Nothing is inserted but by a statement. -/
  asked : ∀ r ∈ t.txs.rows, ∀ v, r.inserted = some v →
    ∃ u x, Asked (own u h) (.insertVersion r.id v) x

theorem ledger_nil : Ledger [] .empty where
  known _ _ h := absurd h List.not_mem_nil
  owner _ _ _ h := absurd h List.not_mem_nil
  begun _ _ _ _ _ h := absurd h List.not_mem_nil
  reserved _ h := absurd h List.not_mem_nil
  inserted _ h := absurd h List.not_mem_nil
  asked _ h := absurd h List.not_mem_nil

section Ledger

variable {h : List (Event sig)} {t t' : Tables} {certs : Table Store.Certificate} {u : Nat}

/-- What is on a trace after one more event. -/
theorem asked_snoc {v : Nat} {st : sig.Stmt} {y : sig.Ans st} {d : DbStmt}
    {x : Except Go.Error d.Res} : Asked (own v (h ++ [⟨u, st, y⟩])) d x ↔
      Asked (own v h) d x ∨
        (u = v ∧ (⟨st, y⟩ : (s : sig.Stmt) × sig.Ans s) = ⟨.inr (.db d), x⟩) := by
  by_cases huv : u = v
  · subst huv
    rw [Asked, Interleave.own_snoc_self, List.mem_append, List.mem_singleton]
    exact or_congr_right ⟨fun heq => ⟨rfl, heq.symm⟩, fun heq => heq.2.symm⟩
  · rw [Asked, Interleave.own_snoc_of_ne huv]
    exact ⟨.inl, fun hor => hor.resolve_right fun heq => huv heq.1⟩

/-- An event that is about no transaction, or whose statement took no effect on one. -/
theorem Ledger.frame (hl : Ledger h t) {st : sig.Stmt} {y : sig.Ans st}
    (hst : ∀ d x, (⟨st, y⟩ : (s : sig.Stmt) × sig.Ans s) = ⟨.inr (.db d), x⟩ →
      (∀ tx, ¬d.into tx) ∧ ∀ tx, (⟨.inr (.db d), x⟩ : (s : sig.Stmt) × sig.Ans s) ≠
        ⟨.inr (.db .begin), .ok tx⟩)
    (hrows : ∀ r ∈ t'.txs.rows, r ∈ t.txs.rows) (hseq : t.txs.seq ≤ t'.txs.seq) :
    Ledger (h ++ [⟨u, st, y⟩]) t' := by
  have hbegin {v tx : Nat} (ha : Asked (own v (h ++ [⟨u, st, y⟩])) .begin (.ok tx)) :
      Asked (own v h) .begin (.ok tx) :=
    (asked_snoc.mp ha).resolve_right fun heq => (hst _ _ heq.2).2 tx rfl
  have hinto {v tx : Nat} {d : DbStmt} {x : Except Go.Error d.Res} (hd : d.into tx)
      (ha : Asked (own v (h ++ [⟨u, st, y⟩])) d x) : Asked (own v h) d x :=
    (asked_snoc.mp ha).resolve_right fun heq => (hst _ _ heq.2).1 tx hd
  refine ⟨?_, ?_, ?_, ?_, ?_, ?_⟩
  · exact fun v tx ha => (hl.known v tx (hbegin ha)).trans hseq
  · exact fun v v' tx ha ha' => hl.owner v v' tx (hbegin ha) (hbegin ha')
  · exact fun v tx d x hd ha => asked_snoc.mpr (.inl (hl.begun v tx d x hd (hinto hd ha)))
  · exact fun r hr v sid n ha => hl.reserved r (hrows r hr) v sid n
      (hinto (d := .reserveVersion r.id sid) rfl ha)
  · exact fun r hr v ver ha => hl.inserted r (hrows r hr) v ver
      (hinto (d := .insertVersion r.id ver) rfl ha)
  · intro r hr ver hins
    obtain ⟨v, x, ha⟩ := hl.asked r (hrows r hr) ver hins
    exact ⟨v, x, asked_snoc.mpr (.inl ha)⟩

/-- **A transaction is opened** under a number that nobody has. -/
theorem Ledger.begin (hl : Ledger h t) {y : Except Go.Error Nat}
    (hy : ∀ tx, y = .ok tx → tx = t.txs.seq + 1) :
    Ledger (h ++ [⟨u, .inr (.db .begin), y⟩])
      { t with txs := t.txs.insert (fun id => ⟨id, none, none⟩) fun _ => rfl } := by
  have hbegin {v tx : Nat} (ha : Asked (own v (h ++ [⟨u, .inr (.db .begin), y⟩])) .begin (.ok tx)) :
      Asked (own v h) .begin (.ok tx) ∨ (u = v ∧ tx = t.txs.seq + 1) := by
    rcases asked_snoc.mp ha with ha | ⟨huv, heq⟩
    · exact .inl ha
    · cases heq
      exact .inr ⟨huv, hy tx rfl⟩
  have hinto {v tx : Nat} {d : DbStmt} {x : Except Go.Error d.Res} (hd : d.into tx)
      (ha : Asked (own v (h ++ [⟨u, .inr (.db .begin), y⟩])) d x) : Asked (own v h) d x := by
    rcases asked_snoc.mp ha with ha | ⟨-, heq⟩
    · exact ha
    · cases heq
      exact hd.elim
  -- nobody has written into the new transaction
  have hfresh {v : Nat} {d : DbStmt} {x : Except Go.Error d.Res} (hd : d.into (t.txs.seq + 1))
      (ha : Asked (own v h) d x) : False :=
    absurd (hl.known v _ (hl.begun v _ d x hd ha)) (Nat.not_succ_le_self _)
  refine ⟨?_, ?_, ?_, ?_, ?_, ?_⟩
  · intro v tx ha
    rcases hbegin ha with ha | ⟨-, rfl⟩
    · exact Nat.le_succ_of_le (hl.known v tx ha)
    · exact Nat.le_refl _
  · intro v v' tx ha ha'
    rcases hbegin ha with ha | ⟨huv, rfl⟩
    · rcases hbegin ha' with ha' | ⟨-, rfl⟩
      · exact hl.owner v v' tx ha ha'
      · exact absurd (hl.known v _ ha) (Nat.not_succ_le_self _)
    · rcases hbegin ha' with ha' | ⟨huv', -⟩
      · exact absurd (hl.known v' _ ha') (Nat.not_succ_le_self _)
      · exact huv.symm.trans huv'
  · exact fun v tx d x hd ha => asked_snoc.mpr (.inl (hl.begun v tx d x hd (hinto hd ha)))
  · intro r hr v sid n ha
    have ha := hinto (d := .reserveVersion r.id sid) rfl ha
    rcases Table.mem_insert.mp hr with hr | rfl
    · exact hl.reserved r hr v sid n ha
    · exact (hfresh (d := .reserveVersion _ sid) rfl ha).elim
  · intro r hr v ver ha
    have ha := hinto (d := .insertVersion r.id ver) rfl ha
    rcases Table.mem_insert.mp hr with hr | rfl
    · exact hl.inserted r hr v ver ha
    · exact (hfresh (d := .insertVersion _ ver) rfl ha).elim
  · intro r hr ver hins
    rcases Table.mem_insert.mp hr with hr | rfl
    · obtain ⟨v, x, ha⟩ := hl.asked r hr ver hins
      exact ⟨v, x, asked_snoc.mpr (.inl ha)⟩
    · cases hins

/-- What an open transaction holds after a reservation. -/
theorem exec_reserveVersion {tx sid : Nat} {r : Tx}
    (hr : r ∈ (t.exec certs (.reserveVersion tx sid)).2.txs.rows) :
    (r ∈ t.txs.rows ∧ (r.id = tx → ∀ n, (t.exec certs (.reserveVersion tx sid)).1 ≠ .ok (some n))) ∨
      ∃ x ∈ t.txs.rows, ∃ n, x.id = tx ∧ r = { x with reserved := some (sid, n) } ∧
        (t.exec certs (.reserveVersion tx sid)).1 = .ok (some n) := by
  simp only [Tables.exec] at hr ⊢
  rcases within_cases t tx with ⟨-, heq⟩ | ⟨x, hx, heq⟩
  · rw [heq] at hr ⊢
    exact .inl ⟨hr, fun _ _ => nofun⟩
  · rw [heq] at hr ⊢
    cases hsec : t.secrets.get? sid with
    | none =>
      rw [hsec] at hr
      exact .inl ⟨hr, fun _ _ => nofun⟩
    | some sec =>
      rw [hsec] at hr
      rcases mem_updateTx hr with ⟨hr, hne⟩ | ⟨x', hx', hid, rfl⟩
      · exact .inl ⟨hr, fun hid => absurd hid hne⟩
      · exact .inr ⟨x', hx', _, hid, rfl, rfl⟩

/-- What an open transaction holds after an insertion. -/
theorem exec_insertVersion {tx : Nat} {v : SecretVersion} {r : Tx}
    (hr : r ∈ (t.exec certs (.insertVersion tx v)).2.txs.rows) :
    (r ∈ t.txs.rows ∧ (r.id = tx → (t.exec certs (.insertVersion tx v)).1 ≠ .ok ())) ∨
      ∃ x ∈ t.txs.rows, x.id = tx ∧ r = { x with inserted := some v } := by
  simp only [Tables.exec] at hr ⊢
  rcases within_cases t tx with ⟨-, heq⟩ | ⟨x, hx, heq⟩
  · rw [heq] at hr ⊢
    exact .inl ⟨hr, fun _ => nofun⟩
  · rw [heq] at hr ⊢
    cases hconflict : t.versionConflict v with
    | some text =>
      rw [hconflict] at hr
      exact .inl ⟨hr, fun _ => nofun⟩
    | none =>
      rw [hconflict] at hr
      rcases mem_updateTx hr with ⟨hr, hne⟩ | ⟨x', hx', hid, rfl⟩
      · exact .inl ⟨hr, fun hid => absurd hid hne⟩
      · exact .inr ⟨x', hx', hid, rfl⟩

/-- What is left of the ledger by an event that writes into a transaction of its caller. -/
theorem Ledger.into (hl : Ledger h t) {tx : Nat} {d : DbStmt} {y : Except Go.Error d.Res}
    (hd : d.into tx) (hbegun : Asked (own u h) .begin (.ok tx)) (hseq : t'.txs.seq = t.txs.seq)
    (hreserved : ∀ r ∈ t'.txs.rows, ∀ v sid n, Asked (own v (h ++ [⟨u, .inr (.db d), y⟩]))
      (.reserveVersion r.id sid) (.ok (some n)) → r.reserved = some (sid, n))
    (hinserted : ∀ r ∈ t'.txs.rows, ∀ v ver, Asked (own v (h ++ [⟨u, .inr (.db d), y⟩]))
      (.insertVersion r.id ver) (.ok ()) → r.inserted = some ver)
    (hasked : ∀ r ∈ t'.txs.rows, ∀ ver, r.inserted = some ver →
      ∃ v x, Asked (own v (h ++ [⟨u, .inr (.db d), y⟩])) (.insertVersion r.id ver) x) :
    Ledger (h ++ [⟨u, .inr (.db d), y⟩]) t' := by
  have hbegin {v i : Nat} (ha : Asked (own v (h ++ [⟨u, .inr (.db d), y⟩])) .begin (.ok i)) :
      Asked (own v h) .begin (.ok i) := by
    rcases asked_snoc.mp ha with ha | ⟨-, heq⟩
    · exact ha
    · cases heq
      exact hd.elim
  refine ⟨?_, ?_, ?_, hreserved, hinserted, hasked⟩
  · exact fun v i ha => hseq ▸ hl.known v i (hbegin ha)
  · exact fun v v' i ha ha' => hl.owner v v' i (hbegin ha) (hbegin ha')
  · intro v i d' x hd' ha
    rcases asked_snoc.mp ha with ha | ⟨rfl, heq⟩
    · exact asked_snoc.mpr (.inl (hl.begun v i d' x hd' ha))
    · cases heq
      have hsame : tx = i := by
        cases d with
        | reserveVersion j sid => exact hd.symm.trans hd'
        | insertVersion j ver => exact hd.symm.trans hd'
        | _ => exact hd.elim
      exact asked_snoc.mpr (.inl (hsame ▸ hbegun))

/-- A statement that was lost leaves the transaction as it was. -/
theorem Ledger.lost (hl : Ledger h t) {tx : Nat} {d : DbStmt} (hd : d.into tx)
    (hbegun : Asked (own u h) .begin (.ok tx)) {err : Go.Error} :
    Ledger (h ++ [⟨u, .inr (.db d), (.error err : Except Go.Error d.Res)⟩]) t := by
  refine hl.into hd hbegun rfl ?_ ?_ ?_
  · intro r hr v sid n ha
    rcases asked_snoc.mp ha with ha | ⟨-, heq⟩
    · exact hl.reserved r hr v sid n ha
    · cases heq
  · intro r hr v ver ha
    rcases asked_snoc.mp ha with ha | ⟨-, heq⟩
    · exact hl.inserted r hr v ver ha
    · cases heq
  · intro r hr ver hins
    obtain ⟨v, a, ha⟩ := hl.asked r hr ver hins
    exact ⟨v, a, asked_snoc.mpr (.inl ha)⟩

/-- **A reservation** is what its transaction holds from then on. -/
theorem Ledger.reserve (hl : Ledger h t) {tx sid : Nat} {y : Except Go.Error (Option Nat)}
    (hbegun : Asked (own u h) .begin (.ok tx))
    (hnone : ∀ d x, d.into tx → ¬Asked (own u h) d x)
    (hy : ∀ n, y = .ok n → (t.exec certs (.reserveVersion tx sid)).1 = .ok n) :
    Ledger (h ++ [⟨u, .inr (.db (.reserveVersion tx sid)), y⟩])
      (t.exec certs (.reserveVersion tx sid)).2 := by
  -- nobody else has written into the transaction
  have hfresh {v : Nat} {d : DbStmt} {x : Except Go.Error d.Res} (hd : d.into tx)
      (ha : Asked (own v h) d x) : False := by
    obtain rfl := hl.owner v u tx (hl.begun v tx d x hd ha) hbegun
    exact hnone d x hd ha
  refine hl.into (d := .reserveVersion tx sid) rfl hbegun ?_ ?_ ?_ ?_
  · simp only [Tables.exec]
    rcases within_cases t tx with ⟨-, heq⟩ | ⟨x, hx, heq⟩
    · rw [heq]
    · rw [heq]
      cases t.secrets.get? sid with
      | none => rfl
      | some sec => rfl
  · intro r hr v sid' n ha
    rcases exec_reserveVersion hr with ⟨hr, hother⟩ | ⟨x, hx, m, hid, rfl, hans⟩
    · rcases asked_snoc.mp ha with ha | ⟨-, heq⟩
      · exact hl.reserved r hr v sid' n ha
      · cases heq
        exact absurd (hy _ rfl) (hother rfl n)
    · rcases asked_snoc.mp ha with ha | ⟨-, heq⟩
      · exact (hfresh (d := .reserveVersion x.id sid') hid ha).elim
      · cases heq
        obtain rfl : m = n := Option.some.inj (Except.ok.inj (hans.symm.trans (hy _ rfl)))
        rfl
  · intro r hr v ver ha
    rcases asked_snoc.mp ha with ha | ⟨-, heq⟩
    · rcases exec_reserveVersion hr with ⟨hr, -⟩ | ⟨x, hx, m, hid, rfl, -⟩
      · exact hl.inserted r hr v ver ha
      · exact (hfresh (d := .insertVersion x.id ver) hid ha).elim
    · cases heq
  · intro r hr ver hins
    obtain ⟨x, hx, hid, hold⟩ : ∃ x ∈ t.txs.rows, x.id = r.id ∧ x.inserted = some ver := by
      rcases exec_reserveVersion hr with ⟨hr, -⟩ | ⟨x, hx, m, -, rfl, -⟩
      · exact ⟨r, hr, rfl, hins⟩
      · exact ⟨x, hx, rfl, hins⟩
    obtain ⟨v, a, ha⟩ := hl.asked x hx ver hold
    exact ⟨v, a, asked_snoc.mpr (.inl (hid ▸ ha))⟩

/-- **An insertion** is what its transaction holds from then on. -/
theorem Ledger.insert (hl : Ledger h t) {tx : Nat} {v : SecretVersion} {y : Except Go.Error Unit}
    (hbegun : Asked (own u h) .begin (.ok tx))
    (hnone : ∀ v' x, ¬Asked (own u h) (.insertVersion tx v') x)
    (hy : y = .ok () → (t.exec certs (.insertVersion tx v)).1 = .ok ()) :
    Ledger (h ++ [⟨u, .inr (.db (.insertVersion tx v)), y⟩])
      (t.exec certs (.insertVersion tx v)).2 := by
  refine hl.into (d := .insertVersion tx v) rfl hbegun ?_ ?_ ?_ ?_
  · simp only [Tables.exec]
    rcases within_cases t tx with ⟨-, heq⟩ | ⟨x, hx, heq⟩
    · rw [heq]
    · rw [heq]
      cases t.versionConflict v with
      | none => rfl
      | some text => rfl
  · intro r hr w sid n ha
    rcases asked_snoc.mp ha with ha | ⟨-, heq⟩
    · rcases exec_insertVersion hr with ⟨hr, -⟩ | ⟨x, hx, -, rfl⟩
      · exact hl.reserved r hr w sid n ha
      · exact hl.reserved x hx w sid n ha
    · cases heq
  · intro r hr w ver ha
    rcases exec_insertVersion hr with ⟨hr, hother⟩ | ⟨x, hx, hid, rfl⟩
    · rcases asked_snoc.mp ha with ha | ⟨-, heq⟩
      · exact hl.inserted r hr w ver ha
      · cases heq
        exact absurd (hy rfl) (hother rfl)
    · rcases asked_snoc.mp ha with hold | ⟨-, heq⟩
      · have hold : Asked (own w h) (.insertVersion tx ver) (.ok ()) := hid ▸ hold
        obtain rfl := hl.owner w u tx (hl.begun w tx (.insertVersion tx ver) _ rfl hold) hbegun
        exact absurd hold (hnone ver _)
      · cases heq
        rfl
  · intro r hr ver hins
    rcases exec_insertVersion hr with ⟨hr, -⟩ | ⟨x, hx, rfl, rfl⟩
    · obtain ⟨w, a, ha⟩ := hl.asked r hr ver hins
      exact ⟨w, a, asked_snoc.mpr (.inl ha)⟩
    · cases hins
      exact ⟨u, y, asked_snoc.mpr (.inr ⟨rfl, rfl⟩)⟩

/-- The other statements open no transaction and write into none. -/
theorem exec_txs (t : Tables) (certs : Table Store.Certificate) (d : DbStmt)
    (hinto : ∀ tx, ¬d.into tx) (hbegin : d ≠ .begin) :
    (∀ r ∈ (t.exec certs d).2.txs.rows, r ∈ t.txs.rows) ∧
      (t.exec certs d).2.txs.seq = t.txs.seq := by
  have hsame {t' : Tables} (h : t'.txs = t.txs) :
      (∀ r ∈ t'.txs.rows, r ∈ t.txs.rows) ∧ t'.txs.seq = t.txs.seq := by
    rw [h]
    exact ⟨fun _ hr => hr, rfl⟩
  have hdeleted (p : Tx → Bool) :
      (∀ r ∈ (t.txs.delete p).rows, r ∈ t.txs.rows) ∧ (t.txs.delete p).seq = t.txs.seq :=
    ⟨fun _ hr => (Table.mem_delete.mp hr).1, rfl⟩
  cases d with
  | begin => exact absurd rfl hbegin
  | reserveVersion tx sid => exact absurd rfl (hinto tx)
  | insertVersion tx v => exact absurd rfl (hinto tx)
  | commit tx =>
    simp only [Tables.exec]
    rcases within_cases t tx with ⟨-, heq⟩ | ⟨x, hx, heq⟩
    · rw [heq]
      exact hsame rfl
    · rw [heq]
      exact hdeleted _
  | rollback tx =>
    simp only [Tables.exec]
    rcases within_cases t tx with ⟨-, heq⟩ | ⟨x, hx, heq⟩
    · rw [heq]
      exact hsame rfl
    · rw [heq]
      exact hdeleted _
  | insertSecret sec =>
    simp only [Tables.exec]
    split
    · exact hsame rfl
    · exact hsame rfl
  | insertBinding b =>
    simp only [Tables.exec]
    split
    · exact hsame rfl
    · exact hsame rfl
  | _ => exact hsame rfl

/-- **A move keeps the ledger.** -/
theorem ledger_step [Go.Runtime] {e : Store.Env} {w w' : World} {s : Service} {c : Call}
    {st : sig.Stmt} {y : sig.Ans st} (hl : Ledger h w.vault)
    (hst : VersionWarrant s c (own u h) st) (hexec : exec e w st = some (y, w')) :
    Ledger (h ++ [⟨u, st, y⟩]) w'.vault := by
  by_cases hdb : ∃ d, st = .inr (.db d)
  · obtain ⟨d, rfl⟩ := hdb
    obtain ⟨-, -, htables⟩ := exec_db hexec
    have hother (hinto : ∀ tx, ¬d.into tx) (hbegin : d ≠ .begin) :
        Ledger (h ++ [⟨u, .inr (.db d), y⟩]) w'.vault := by
      obtain ⟨hrows, hseq⟩ :=
        exec_txs w.vault w.base.ca.certificates d hinto hbegin
      refine hl.frame (fun d' x heq => ?_) ?_ ?_
      · cases heq
        exact ⟨hinto, fun tx heq => by cases heq; exact hbegin rfl⟩
      · rcases htables with ⟨htables, -⟩ | ⟨htables, -⟩
        · rw [htables]
          exact fun _ hr => hr
        · rw [htables]
          exact hrows
      · rcases htables with ⟨htables, -⟩ | ⟨htables, -⟩
        · rw [htables]
        · rw [htables, hseq]
    cases d with
    | begin =>
      rcases htables with ⟨htables, err, rfl⟩ | ⟨htables, hans⟩
      · rw [htables]
        refine hl.frame (fun d x heq => ?_) (fun _ hr => hr) (Nat.le_refl _)
        cases heq
        exact ⟨fun _ h => h.elim, fun _ heq => by cases heq⟩
      · rw [htables]
        exact hl.begin fun tx htx => (Except.ok.inj (hans tx htx)).symm
    | reserveVersion tx sid =>
      rcases htables with ⟨htables, err, rfl⟩ | ⟨htables, hans⟩
      · rw [htables]
        exact hl.lost (d := .reserveVersion tx sid) rfl hst.1
      · rw [htables]
        exact hl.reserve hst.1 hst.2 hans
    | insertVersion tx v =>
      rcases htables with ⟨htables, err, rfl⟩ | ⟨htables, hans⟩
      · rw [htables]
        exact hl.lost (d := .insertVersion tx v) rfl hst.1
      · rw [htables]
        exact hl.insert hst.1 hst.2.2.1 (hans ())
    | _ => exact hother (fun _ h => h) nofun
  · rw [exec_other (fun d hd => hdb ⟨d, hd⟩) hexec]
    refine hl.frame (fun d x heq => ?_) (fun _ hr => hr) (Nat.le_refl _)
    cases heq
    exact absurd ⟨d, rfl⟩ hdb

/-- A statement finds what it needs for the versions to stay dense. -/
theorem Ledger.admits {s : Service} {c : Call} (hl : Ledger h t) {d : DbStmt}
    (hd : VersionWarrant s c (own u h) (.inr (.db d))) (hc : c.asks (.inr (.db d))) :
    t.Admits d := by
  cases d with
  | insertSecret sec =>
    obtain ⟨i, -, -, hzero⟩ := Call.writes_insertSecret (hc.resolve_left id)
    exact hzero
  | reserveVersion tx sid =>
    intro x hx
    by_contra hne
    obtain ⟨v, hv⟩ := Option.ne_none_iff_exists'.mp hne
    obtain ⟨u', a, ha⟩ := hl.asked x (Table.mem_of_get? hx) v hv
    rw [tx_id hx] at ha
    have hinto : DbStmt.into tx (.insertVersion tx v) := rfl
    obtain rfl := hl.owner u' u tx (hl.begun u' tx _ _ hinto ha) hd.1
    exact hd.2 _ _ hinto ha
  | insertVersion tx v =>
    intro x hx
    refine hl.reserved x (Table.mem_of_get? hx) u _ _ ?_
    rw [tx_id hx]
    exact hd.2.1
  | commit tx =>
    intro x hx
    obtain ⟨-, v, hv⟩ := hd
    rw [hl.inserted x (Table.mem_of_get? hx) u v (by rwa [tx_id hx])]
    exact Option.some_ne_none v
  | _ => trivial

end Ledger

/-! ## Counting up -/

/-- A secret is counted up, and never down. -/
def CountedUp (sec sec' : Secret) : Prop := sec.currentVersion ≤ sec'.currentVersion

theorem CountedUp.refl (sec : Secret) : CountedUp sec sec := Nat.le_refl _

theorem CountedUp.trans (a b c : Secret) (h : CountedUp a b) (h' : CountedUp b c) :
    CountedUp a c := Nat.le_trans h h'

theorem follows_updateSecrets (t : Tables) (id : Nat) {f : Secret → Secret}
    (hf : ∀ s, (f s).id = s.id) (hcount : ∀ s, CountedUp s (f s)) :
    t.secrets.Follows CountedUp (t.updateSecrets id f hf).secrets :=
  Table.follows_update CountedUp.refl t.secrets (·.id == id) hf hcount

theorem secrets_follow {t : Tables} {certs : Table Store.Certificate} (h : t.Dense) (d : DbStmt) :
    t.secrets.Follows CountedUp (t.exec certs d).2.secrets := by
  have hrefl := Table.Follows.refl CountedUp.refl t.secrets
  cases d with
  | insertSecret sec =>
    simp only [Tables.exec]
    split
    · exact hrefl
    · exact Table.follows_insert CountedUp.refl t.secrets (fun id => { sec with id }) fun _ => rfl
  | updateSecretMeta id description labelsJSON rotationDays =>
    exact follows_updateSecrets (f := fun s => { s with description, labelsJSON, rotationDays }) t
      id (fun _ => rfl) fun _ => Nat.le_refl _
  | setSecretDisabled id disabled =>
    exact follows_updateSecrets (f := fun s => { s with disabled }) t id (fun _ => rfl)
      fun _ => Nat.le_refl _
  | deleteSecret id => exact Table.follows_delete CountedUp.refl _ _
  | reserveVersion tx sid =>
    simp only [Tables.exec]
    rcases within_cases t tx with ⟨-, heq⟩ | ⟨x, -, heq⟩
    · rw [heq]
      exact hrefl
    · rw [heq]
      split
      · exact hrefl
      · exact hrefl
  | insertVersion tx v =>
    simp only [Tables.exec]
    rcases within_cases t tx with ⟨-, heq⟩ | ⟨x, -, heq⟩
    · rw [heq]
      exact hrefl
    · rw [heq]
      split
      · exact hrefl
      · exact hrefl
  | rollback tx =>
    simp only [Tables.exec]
    rcases within_cases t tx with ⟨-, heq⟩ | ⟨x, -, heq⟩
    · rw [heq]
      exact hrefl
    · rw [heq]
      exact hrefl
  | commit tx =>
    simp only [Tables.exec]
    rcases within_cases t tx with ⟨-, heq⟩ | ⟨x, hx, heq⟩
    · rw [heq]
      exact hrefl
    · rw [heq]
      show t.secrets.Follows CountedUp (t.commitTx x).secrets
      unfold Tables.commitTx
      split
      · exact hrefl
      · next id next hres =>
        refine ⟨Nat.le_refl _, fun i sec' _ hsec' => ?_⟩
        rw [Table.get?_update] at hsec'
        obtain ⟨sec, hsec, rfl⟩ := Option.map_eq_some_iff.mp hsec'
        refine ⟨sec, hsec, ?_⟩
        split
        · next hid =>
          -- the counted secret is the one whose next number was reserved
          obtain ⟨sec₀, hsec₀, hn⟩ := h.next x (Table.mem_of_get? hx) id next hres
          rw [← beq_iff_eq.mp hid, secret_id hsec, hsec, Option.some.injEq] at hsec₀
          subst hsec₀
          show sec.currentVersion ≤ next
          omega
        · exact Nat.le_refl _
  | insertBinding b =>
    simp only [Tables.exec]
    split
    · exact hrefl
    · exact hrefl
  | _ => exact hrefl

/-! ## Runs -/

section Run

variable [Go.Runtime] {s : Service} {base : Store.World} {calls : List Call}
  {moves : Pool.Schedule Store.Env} {i j t : Nat}

/-- The tables before move `i`. -/
abbrev tablesUpto (s : Service) (base : Store.World) (calls : List Call)
    (moves : Pool.Schedule Store.Env) (i : Nat) : Tables :=
  (s.answeringUpto base calls moves i).world.vault

/-- What a call has been allowed to ask, and what it promises. -/
theorem answers_traced (i : Nat) :
    Pool.Traced (fun t q st => ∀ c, calls[t]? = some c → VersionWarrant s c q st ∧ c.asks st)
      (fun _ => VersionPromise) (s.answeringUpto base calls moves i) := by
  refine (Pool.run_traced Pool.lawful_init (Pool.traced_init ?_) _).2
  intro t p hp
  rw [List.getElem?_map] at hp
  obtain ⟨c, hc, rfl⟩ := Option.map_eq_some_iff.mp hp
  refine ((answer_versions s c).and_uses (answer_asks s c)).mono ?_ fun _ _ h => h
  intro q st h c' hc'
  obtain rfl := Option.some.inj (hc.symm.trans hc')
  exact h

/-- What every call promises when it answers holds of an answer. -/
theorem answered {post : Call → Trace sig → Reply → Prop}
    (h : ∀ c, (s.answer c).Traced (fun _ _ => True) (post c) []) {c : Call}
    (hc : calls[t]? = some c) {r : Reply}
    (hr : (s.answeringUpto base calls moves i).threads[t]? = some (.pure r)) :
    post c (own t (s.answeringUpto base calls moves i).history) r := by
  have htraced : Pool.Traced (fun _ _ _ => True) (fun t q r => ∀ c, calls[t]? = some c → post c q r)
      (s.answeringUpto base calls moves i) := by
    refine (Pool.run_traced Pool.lawful_init (Pool.traced_init ?_) _).2
    intro t p hp
    rw [List.getElem?_map] at hp
    obtain ⟨c, hc, rfl⟩ := Option.map_eq_some_iff.mp hp
    refine (h c).mono (fun _ _ => id) fun q r hpost c' hc' => ?_
    obtain rfl := Option.some.inj (hc.symm.trans hc')
    exact hpost
  exact Prog.traced_pure.mp (htraced t _ hr) c hc

/-- Who asks is one of the calls. -/
theorem call_of_asked {e : Store.Env} {st : sig.Stmt} {x : sig.Ans st}
    (h : Pool.AskedAt exec (s.answering (.fresh base) calls) moves i t e st x) :
    ∃ c, calls[t]? = some c := by
  obtain ⟨k, hk⟩ := Pool.next?_eq_some.mp h.next
  have hlen : t < (s.answeringUpto base calls moves i).threads.length :=
    (List.getElem?_eq_some_iff.mp hk).1
  unfold Service.answeringUpto Pool.upto at hlen
  rw [Pool.length_threads_run] at hlen
  have hcalls : t < calls.length := by
    unfold Service.answering Pool.init at hlen
    rwa [List.length_map] at hlen
  exact ⟨_, List.getElem?_eq_getElem hcalls⟩

theorem asked_allowed {e : Store.Env} {st : sig.Stmt} {x : sig.Ans st}
    (h : Pool.AskedAt exec (s.answering (.fresh base) calls) moves i t e st x) :
    ∃ c, calls[t]? = some c ∧ c.asks st ∧
      VersionWarrant s c (own t (s.answeringUpto base calls moves i).history) st := by
  obtain ⟨c, hc⟩ := call_of_asked h
  obtain ⟨hwarrant, hasks⟩ := Pool.next_allowed (answers_traced (s := s) i) h.next c hc
  exact ⟨c, hc, hasks, hwarrant⟩

/-- **In every run** the versions are dense, and transactions hold what their owners asked. -/
theorem dense_upto (hi : i ≤ moves.length) :
    Ledger (s.answeringUpto base calls moves i).history (tablesUpto s base calls moves i) ∧
      (tablesUpto s base calls moves i).Dense := by
  induction i with
  | zero => exact ⟨ledger_nil, dense_empty⟩
  | succ i ih =>
    obtain ⟨hl, hd⟩ := ih (Nat.le_of_succ_le hi)
    rcases Pool.upto_asked exec (s.answering (.fresh base) calls) hi with hs | ⟨st, x, hasked, hh⟩
    · unfold tablesUpto Service.answeringUpto
      rw [hs]
      exact ⟨hl, hd⟩
    · obtain ⟨c, hc, hasks, hwarrant⟩ := asked_allowed hasked
      refine ⟨?_, ?_⟩
      · unfold tablesUpto Service.answeringUpto
        rw [hh]
        exact ledger_step hl hwarrant hasked.exec
      · rcases tables_step hasked.exec with heq | ⟨d, rfl, hwaits, heq⟩
        · have heq : tablesUpto s base calls moves (i + 1) = tablesUpto s base calls moves i := heq
          rw [heq]
          exact hd
        · have heq : tablesUpto s base calls moves (i + 1) = _ := heq
          rw [heq]
          exact dense_exec hd hwaits (hl.admits hwarrant hasks)

/-- Secrets are counted up from each move to every later one. -/
theorem secrets_upto (hij : i ≤ j) (hj : j ≤ moves.length) :
    (tablesUpto s base calls moves i).secrets.Follows CountedUp
      (tablesUpto s base calls moves j).secrets := by
  induction hij with
  | refl => exact .refl CountedUp.refl _
  | @step j _ ih =>
    refine (ih (Nat.le_of_succ_le hj)).trans CountedUp.trans ?_
    rcases Pool.upto_asked exec (s.answering (.fresh base) calls) hj with hs | ⟨st, x, hasked, -⟩
    · unfold tablesUpto Service.answeringUpto
      rw [hs]
      exact .refl CountedUp.refl _
    · rcases tables_step hasked.exec with heq | ⟨d, rfl, -, heq⟩
      · have heq : tablesUpto s base calls moves (j + 1) = tablesUpto s base calls moves j := heq
        rw [heq]
        exact .refl CountedUp.refl _
      · have heq : tablesUpto s base calls moves (j + 1) = _ := heq
        rw [heq]
        exact secrets_follow (dense_upto (Nat.le_of_succ_le hj)).2 d

/-- At move `m` thread `t` commits the transaction in which it has inserted a version, and stores
the version. -/
def StoresAt (s : Service) (base : Store.World) (calls : List Call)
    (moves : Pool.Schedule Store.Env) (m t : Nat) (v : SecretVersion) : Prop :=
  ∃ tx e x row, Pool.AskedAt exec (s.answering (.fresh base) calls) moves m t e
      (.inr (.db (.commit tx))) x ∧
    Asked (own t (s.answeringUpto base calls moves m).history) (.insertVersion tx v) (.ok ()) ∧
    (tablesUpto s base calls moves m).txs.get? tx = some row ∧ row.inserted = some v ∧
    tablesUpto s base calls moves (m + 1) = (tablesUpto s base calls moves m).commitTx row

theorem StoresAt.lt {m : Nat} {v : SecretVersion} (h : StoresAt s base calls moves m t v) :
    m < moves.length := by
  obtain ⟨_, _, _, _, hasked, -⟩ := h
  exact (List.getElem?_eq_some_iff.mp hasked.move).1

/-- **A version is counted** by the move that stores it. -/
theorem StoresAt.counts {m : Nat} {v : SecretVersion} (h : StoresAt s base calls moves m t v) :
    (∃ sec, (tablesUpto s base calls moves m).secrets.get? v.secretID = some sec ∧
      v.version = sec.currentVersion + 1) ∧
    ∃ sec, (tablesUpto s base calls moves (m + 1)).secrets.get? v.secretID = some sec ∧
      sec.currentVersion = v.version := by
  have hlt := h.lt
  obtain ⟨tx, e, x, row, -, -, hrow, hins, htables⟩ := h
  have hdense : (tablesUpto s base calls moves m).Dense := (dense_upto hlt.le).2
  have hres := hdense.fits row (Table.mem_of_get? hrow) v hins
  obtain ⟨sec, hsec, hn⟩ := hdense.next row (Table.mem_of_get? hrow) _ _ hres
  refine ⟨⟨sec, hsec, hn⟩, { sec with currentVersion := v.version }, ?_, rfl⟩
  rw [htables, get?_commitTx hres hsec, if_pos rfl]

/-- No two moves store versions of one secret under one number. -/
theorem StoresAt.not_later {m m' t' : Nat} {v v' : SecretVersion}
    (h : StoresAt s base calls moves m t v) (h' : StoresAt s base calls moves m' t' v')
    (hid : v.secretID = v'.secretID) (hlt : m < m') : v.version < v'.version := by
  obtain ⟨-, sec, hsec, hcount⟩ := h.counts
  obtain ⟨⟨sec', hsec', hcount'⟩, -⟩ := h'.counts
  have hup : CountedUp sec sec' := (secrets_upto hlt h'.lt.le).related hsec (hid ▸ hsec')
  unfold CountedUp at hup
  omega

theorem StoresAt.unique {m m' t' : Nat} {v v' : SecretVersion}
    (h : StoresAt s base calls moves m t v) (h' : StoresAt s base calls moves m' t' v')
    (hid : v.secretID = v'.secretID) (hnum : v.version = v'.version) :
    m = m' ∧ t = t' ∧ v = v' := by
  obtain rfl : m = m' := by
    rcases Nat.lt_trichotomy m m' with hlt | heq | hlt
    · exact absurd hnum (h.not_later h' hid hlt).ne
    · exact heq
    · exact absurd hnum.symm (h'.not_later h hid.symm hlt).ne
  obtain ⟨tx, e, x, row, hasked, -, hrow, hins, -⟩ := h
  obtain ⟨tx', e', x', row', hasked', -, hrow', hins', -⟩ := h'
  obtain ⟨rfl, heq⟩ := hasked.stmt_unique hasked'
  cases heq
  obtain rfl := Option.some.inj (hrow.symm.trans hrow')
  exact ⟨rfl, rfl, Option.some.inj (hins.symm.trans hins')⟩

/-- Who has committed a version has stored it. -/
theorem stores_of_committed {n : Nat} (hn : n ≤ moves.length) {v : SecretVersion}
    (h : Committed (own t (s.answeringUpto base calls moves n).history) v) :
    ∃ m < n, StoresAt s base calls moves m t v := by
  obtain ⟨tx, q₁, hinserted, hq⟩ := h
  obtain ⟨m, e, hm, hasked, hown⟩ := Pool.own_origin hn rfl hq
  obtain ⟨-, -, hexec⟩ := exec_db_ok hasked.exec
  have hlt : m < moves.length := hm.trans_le hn
  have hinserted : Asked (own t (s.answeringUpto base calls moves m).history)
      (.insertVersion tx v) (.ok ()) := by
    show Asked (own t (Pool.upto _ _ _ _).history) _ _
    rw [hown]
    exact hinserted
  have hexec : (tablesUpto s base calls moves m).within tx
      (fun x => (.ok (), (tablesUpto s base calls moves m).commitTx x)) =
      (.ok (), tablesUpto s base calls moves (m + 1)) := hexec
  refine ⟨m, hm, ?_⟩
  rcases within_cases (tablesUpto s base calls moves m) tx with ⟨-, heq⟩ | ⟨row, hrow, heq⟩
  · rw [heq] at hexec
    cases hexec
  · rw [heq] at hexec
    obtain ⟨-, htables⟩ := Prod.mk.inj hexec
    have hledger : Ledger _ (tablesUpto s base calls moves m) := (dense_upto hlt.le).1
    refine ⟨tx, e, _, row, hasked, hinserted, hrow, ?_, htables.symm⟩
    exact hledger.inserted row (Table.mem_of_get? hrow) t v (by rwa [tx_id hrow])

/-- A call that answers with a version has stored it. -/
theorem stores_of_answer {n : Nat} (hn : n ≤ moves.length) {v : SecretVersion}
    (h : (s.answeringUpto base calls moves n).threads[t]? = some (.pure (.version v))) :
    ∃ m u, StoresAt s base calls moves m t u ∧ u.secretID = v.secretID ∧ u.version = v.version := by
  obtain ⟨u, hcommitted, hread⟩ : PutDone (own t (s.answeringUpto base calls moves n).history) v :=
    Prog.traced_pure.mp (answers_traced n t _ h) v rfl
  obtain ⟨m, -, hstores⟩ := stores_of_committed hn hcommitted
  obtain ⟨j, e, -, hasked⟩ := Pool.history_origin hn rfl (Interleave.mem_own.mp hread)
  obtain ⟨-, -, hexec⟩ := exec_db_ok hasked.exec
  obtain ⟨hfound, -⟩ := Prod.mk.inj hexec
  have his := List.find?_some (Except.ok.inj hfound)
  simp only [SecretVersion.is, Bool.and_eq_true, beq_iff_eq, Int.ofNat_inj] at his
  exact ⟨m, u, hstores, his.1.symm, his.2.symm⟩

end Run

/-! ## The law -/

/-- The numbers of the versions of a secret. -/
def Tables.numbers (t : Tables) (sec : Secret) : List Nat :=
  (t.versions.rows.filter (·.secretID == sec.id)).map SecretVersion.version

theorem Tables.Dense.perm {t : Tables} (h : t.Dense) {sec : Secret} (hsec : sec ∈ t.secrets.rows) :
    (t.numbers sec).Perm (List.range' 1 sec.currentVersion) := by
  have hmem {v : SecretVersion} (hv : v ∈ t.versions.rows.filter (·.secretID == sec.id)) :
      v ∈ t.versions.rows ∧ v.secretID = sec.id := by
    simpa using List.mem_filter.mp hv
  have hrows : t.versions.rows.Nodup := List.Nodup.of_map _ t.versions.distinct
  have hnodup : (t.numbers sec).Nodup := by
    refine List.Nodup.map_on ?_ (hrows.filter _)
    intro v hv v' hv' hnum
    obtain ⟨hv, hid⟩ := hmem hv
    obtain ⟨hv', hid'⟩ := hmem hv'
    exact h.single v hv v' hv' (hid.trans hid'.symm) hnum
  rw [List.perm_ext_iff_of_nodup hnodup List.nodup_range']
  intro n
  rw [List.mem_range'_1, Tables.numbers, List.mem_map]
  constructor
  · rintro ⟨v, hv, rfl⟩
    obtain ⟨hv, hid⟩ := hmem hv
    obtain ⟨sec', hsec', hpos, hle⟩ := h.counted v hv
    rw [hid, get?_secret hsec, Option.some.injEq] at hsec'
    subst hsec'
    omega
  · rintro ⟨hpos, hlt⟩
    obtain ⟨v, hv, hid, hn⟩ := h.filled sec hsec n hpos (by omega)
    exact ⟨v, List.mem_filter.mpr ⟨hv, beq_iff_eq.mpr hid⟩, hn⟩

/-- **The versions of a run are dense.** -/
structure VersionsDense [Go.Runtime] (s : Service) (base : Store.World) (calls : List Call)
    (moves : Pool.Schedule Store.Env) : Prop where
  /-- The versions of a secret are those that it has counted, one row each. -/
  dense : ∀ i ≤ moves.length, ∀ sec ∈ (tablesUpto s base calls moves i).secrets.rows,
    ((tablesUpto s base calls moves i).numbers sec).Perm (List.range' 1 sec.currentVersion)
  owned : ∀ i ≤ moves.length, ∀ v ∈ (tablesUpto s base calls moves i).versions.rows,
    ∃ sec ∈ (tablesUpto s base calls moves i).secrets.rows, sec.id = v.secretID
  /-- No two calls answer with one number of one secret. -/
  alone : ∀ (t t' : Nat) (v v' : SecretVersion),
    (s.answeringUpto base calls moves moves.length).threads[t]? = some (.pure (.version v)) →
    (s.answeringUpto base calls moves moves.length).threads[t']? = some (.pure (.version v')) →
    v.secretID = v'.secretID → v.version = v'.version → t = t'

/-- **The numbers of versions are dense and never shared**, in every run of any number of calls. -/
theorem versions_dense [Go.Runtime] (s : Service) (base : Store.World) (calls : List Call)
    (moves : Pool.Schedule Store.Env) : VersionsDense s base calls moves where
  dense _ hi _ hsec := (dense_upto hi).2.perm hsec
  owned i hi v hv := by
    obtain ⟨sec, hsec, -⟩ := (dense_upto hi).2.counted v hv
    exact ⟨sec, Table.mem_of_get? hsec, secret_id hsec⟩
  alone t t' v v' ht ht' hid hnum := by
    obtain ⟨m, u, hstores, huid, hunum⟩ := stores_of_answer (Nat.le_refl _) ht
    obtain ⟨m', u', hstores', huid', hunum'⟩ := stores_of_answer (Nat.le_refl _) ht'
    have hsame := hstores.unique hstores' (huid.trans (hid.trans huid'.symm))
      (hunum.trans (hnum.trans hunum'.symm))
    exact hsame.2.1

end Goca.Vault
