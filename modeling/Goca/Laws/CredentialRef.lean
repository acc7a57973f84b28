import Mathlib.Data.List.Sort
import Goca.Acme.EabAdmin
import Goca.Laws.Samples

/-!
# Which credential a reference resolves to

An administrator names a credential by its key id, by its id or by its display name, and what
`resolveEAB` returns is disabled or deleted. The lookups by key id and by name compare the whole
reference. The lookup by id compares only the number the reference begins with, so that `12abc` is
taken for the credential 12: `Misread` says when that happens, and a reference resolves to a
credential it names exactly where it does not.

Every statement of a call meets a choice of the environment of its own, a fault among them: a
lookup that fails lets the call go on to the next one.
-/

set_option autoImplicit false

namespace Goca.Acme

open Goca.Store
open Interleave (Act Prog Sem)

/-- `SELECT ... ORDER BY id DESC`. -/
def eabListing : Sem ⟨EabStmt, EabStmt.Ans⟩ Env World := fun e w s =>
  match s with
  | .listEABCreds =>
    some (e.fault.answer (.ok (w.acme.eabCreds.rows.insertionSort fun a b => b.id ≤ a.id)), w)

/-- What the statements of the administration do, each under an environment of its own. -/
def eabExec [Go.Runtime] : Sem eabSig (eabSig.Stmt → Env) World := fun e w s =>
  Sem.sum id (fun _ w' => w') exec eabListing (e s) w s

section

variable [Go.Folding]

/-- What a reference names: a credential with this key id, with this id in decimal, or the one
credential with this display name. -/
def References (creds : List EABCred) (ref : String) (c : EABCred) : Prop :=
  c ∈ creds ∧ (c.keyID = ref ∨ toString c.id = ref ∨ named ref creds = [c])

/-- **A call never picks the wrong credential**: it comes to its end, and a credential that it
returns is one that the reference names. -/
def ResolvesOnly [Go.Runtime] (e : eabSig.Stmt → Env) (w : World) (ref : String) : Prop :=
  ∃ r, (resolveEAB ref).run.evalWith eabExec e w = some (r, w) ∧
    ∀ c, r = .ok c → References w.acme.eabCreds.rows (Go.trimSpace ref) c

/-- The reference begins with the id of a credential, and goes on, and is neither the key id nor the
display name of that credential. -/
def Misread (creds : List EABCred) (ref : String) (c : EABCred) : Prop :=
  c ∈ creds ∧ Go.scanInt ref = some (c.id : Int) ∧ toString c.id ≠ ref ∧ c.keyID ≠ ref ∧
    named ref creds ≠ [c]

end

/-- Whether the environment lets a lookup answer. -/
def Answered (e : eabSig.Stmt → Env) (s : AcmeStmt) : Prop := (e (.inl (.acme s))).fault = .none

/-! ## The three lookups -/

/-- The row of a lookup that may have failed. -/
theorem row_answer {f : Fault} {o : Option EABCred} {c : EABCred} :
    row (f.answer (.ok o)) = .ok c ↔ f = .none ∧ o = some c := by
  cases f with
  | none => cases o <;> simp [Fault.answer, row]
  | lost text => simp [Fault.answer, row]
  | late text => simp [Fault.answer, row]

variable {e : eabSig.Stmt → Env} {w : World}

/-- A lookup of the request's statements, its error kept: it answers the row, or fails. -/
theorem eval_lookup [Go.Runtime] {s : AcmeStmt} (he : 0 < (e (.inl (.acme s))).now)
    {r : Except Go.Error s.Res} {f : Except Go.Error s.Res → Except Go.Error EABCred}
    (hs : ∀ e', w.acme.exec e' w.ca.certificates s = (r, w.acme))
    (k : Except Go.Error EABCred → Act eabSig Go.Error EABCred) :
    (((acme s).mapResult f).embed.attempt >>= k).run.evalWith eabExec e w =
      (k (f ((e (.inl (.acme s))).fault.answer r))).run.evalWith eabExec e w := by
  have hx : eabExec e w (.inl (.acme s)) =
      some ((e (.inl (.acme s))).fault.answer r, w) := by
    show Option.map _ (exec _ w (.acme s)) = _
    simp only [exec, if_pos he, hs]
    cases (e (.inl (.acme s))).fault <;> rfl
  show (eabExec e w (.inl (.acme s))).bind _ = _
  rw [hx]
  rfl

section

variable (e w) (ref : String)

/-- What the lookup by key id answers. -/
def keyIDRow : Except Go.Error EABCred :=
  row ((e (.inl (.acme (.selectEABCredByKeyID ref)))).fault.answer
    (.ok (w.acme.eabCreds.rows.find? (·.keyID == ref))))

/-- What the lookup by id answers. -/
def idRow (id : Nat) : Except Go.Error EABCred :=
  row ((e (.inl (.acme (.selectEABCred id)))).fault.answer (.ok (w.acme.eabCreds.get? id)))

end

theorem keyIDRow_eq {ref : String} {c : EABCred} (h : keyIDRow e w ref = .ok c) :
    Answered e (.selectEABCredByKeyID ref) ∧ c ∈ w.acme.eabCreds.rows ∧ c.keyID = ref := by
  obtain ⟨hanswered, hfind⟩ := row_answer.mp h
  have hkey := List.find?_some hfind
  exact ⟨hanswered, List.mem_of_find?_eq_some hfind, eq_of_beq hkey⟩

theorem keyIDRow_found {ref : String} {d : EABCred}
    (hanswered : Answered e (.selectEABCredByKeyID ref)) (hd : d ∈ w.acme.eabCreds.rows)
    (hkey : d.keyID = ref) : ∃ c, keyIDRow e w ref = .ok c := by
  cases hfind : w.acme.eabCreds.rows.find? (·.keyID == ref) with
  | none => exact absurd (beq_iff_eq.mpr hkey) (List.find?_eq_none.mp hfind d hd)
  | some c => exact ⟨c, row_answer.mpr ⟨hanswered, hfind⟩⟩

theorem idRow_eq {id : Nat} {c : EABCred} :
    idRow e w id = .ok c ↔
      Answered e (.selectEABCred id) ∧ c ∈ w.acme.eabCreds.rows ∧ c.id = id := by
  rw [idRow, row_answer, Sql.Table.get?_eq_some_iff]
  rfl

/-- What the lookup by the number a reference begins with answers. -/
def numberRow (e : eabSig.Stmt → Env) (w : World) (ref : String) : Except Go.Error EABCred :=
  match Go.scanInt ref with
  | some (.ofNat id) => idRow e w id
  | some (.negSucc _) => .error .notFound
  | none => .error (.new "expected integer")

theorem numberRow_eq {ref : String} {c : EABCred} :
    numberRow e w ref = .ok c ↔ Go.scanInt ref = some (c.id : Int) ∧
      Answered e (.selectEABCred c.id) ∧ c ∈ w.acme.eabCreds.rows := by
  unfold numberRow
  split
  · next id hscan =>
    rw [hscan, idRow_eq]
    constructor
    · rintro ⟨hanswered, hc, rfl⟩
      exact ⟨rfl, hanswered, hc⟩
    · rintro ⟨hid, hanswered, hc⟩
      obtain rfl : id = c.id := Int.ofNat.inj (Option.some.inj hid)
      exact ⟨hanswered, hc, rfl⟩
  · next n hscan =>
    rw [hscan]
    simp
  · next hscan =>
    rw [hscan]
    simp

section

variable [Go.Runtime] [Go.Folding]

omit [Go.Runtime] in
theorem onlyNamed_eq {ref : String} {creds : List EABCred} {c : EABCred}
    (h : onlyNamed ref creds = .ok c) : named ref creds = [c] := by
  unfold onlyNamed at h
  split at h
  · next d hd =>
    cases h
    exact hd
  · cases h
  · cases h

/-- The lookup by name returns the one credential that has the name. -/
theorem credByName_eval (ref : String) :
    ∃ r, (credByName ref).run.evalWith eabExec e w = some (r, w) ∧
      ∀ c, r = .ok c → named ref w.acme.eabCreds.rows = [c] := by
  have hx : (credByName ref).run.evalWith eabExec e w =
      some (((e (.inr .listEABCreds)).fault.answer
        (.ok (w.acme.eabCreds.rows.insertionSort fun a b => b.id ≤ a.id))).bind (onlyNamed ref),
        w) := by
    show Option.bind (some _) _ = _
    cases (e (.inr .listEABCreds)).fault <;> rfl
  refine ⟨_, hx, ?_⟩
  intro c hc
  cases hfault : (e (.inr .listEABCreds)).fault with
  | none =>
    rw [hfault] at hc
    have hsorted : (named ref (w.acme.eabCreds.rows.insertionSort fun a b => b.id ≤ a.id)).Perm
        (named ref w.acme.eabCreds.rows) := (List.perm_insertionSort _ _).filter _
    rw [onlyNamed_eq hc] at hsorted
    exact List.perm_singleton.mp hsorted.symm
  | lost text => rw [hfault] at hc; cases hc
  | late text => rw [hfault] at hc; cases hc

omit [Go.Folding] in
/-- The lookup by key id. -/
theorem byKeyID_eval (he : ∀ s, 0 < (e s).now) (ref : String)
    (k : Except Go.Error EABCred → Act eabSig Go.Error EABCred) :
    ((getEABCredByKeyID ref).embed.attempt >>= k).run.evalWith eabExec e w =
      (k (keyIDRow e w ref)).run.evalWith eabExec e w :=
  eval_lookup (s := .selectEABCredByKeyID ref) (he _) (fun _ => rfl) k

omit [Go.Folding] in
/-- The lookup by the number that the reference begins with. -/
theorem byNumber_eval (he : ∀ s, 0 < (e s).now) (ref : String)
    (k : Except Go.Error EABCred → Act eabSig Go.Error EABCred) :
    ((credByNumber ref).embed.attempt >>= k).run.evalWith eabExec e w =
      (k (numberRow e w ref)).run.evalWith eabExec e w := by
  unfold credByNumber numberRow
  cases Go.scanInt ref with
  | none => rfl
  | some n =>
    cases n with
    | ofNat id => exact eval_lookup (s := .selectEABCred id) (he _) (fun _ => rfl) k
    | negSucc n => rfl

/-- **What a call does**: the three lookups in turn, and the first that answers a row wins. -/
theorem resolveEAB_eval (he : ∀ s, 0 < (e s).now) {ref : String} (hne : Go.trimSpace ref ≠ "") :
    (resolveEAB ref).run.evalWith eabExec e w =
      match keyIDRow e w (Go.trimSpace ref) with
      | .ok c => some (.ok c, w)
      | .error _ =>
        match numberRow e w (Go.trimSpace ref) with
        | .ok c => some (.ok c, w)
        | .error _ => (credByName (Go.trimSpace ref)).run.evalWith eabExec e w := by
  unfold resolveEAB
  simp only [Act.failIf, if_neg hne, pure_bind]
  refine (byKeyID_eval he _ _).trans ?_
  cases keyIDRow e w (Go.trimSpace ref) with
  | ok c => rfl
  | error _ =>
    refine (byNumber_eval he _ _).trans ?_
    cases numberRow e w (Go.trimSpace ref) <;> rfl

/-! ## The law -/

/-- **A reference never resolves to the wrong credential**, unless the lookup by id answers a
credential whose id the reference merely begins with. -/
theorem resolveEAB_resolvesOnly (he : ∀ s, 0 < (e s).now) (ref : String) :
    ResolvesOnly e w ref ↔
      ∀ c, Misread w.acme.eabCreds.rows (Go.trimSpace ref) c →
        Answered e (.selectEABCred c.id) →
        Answered e (.selectEABCredByKeyID (Go.trimSpace ref)) ∧
          ∃ d ∈ w.acme.eabCreds.rows, d.keyID = Go.trimSpace ref := by
  constructor
  · rintro ⟨r, hr, honly⟩ c ⟨hc, hscan, hid, hkey, hname⟩ hanswered
    have hne : Go.trimSpace ref ≠ "" := by
      intro h
      rw [h] at hscan
      cases hscan
    rw [resolveEAB_eval he hne] at hr
    cases hfound : keyIDRow e w (Go.trimSpace ref) with
    | ok d =>
      obtain ⟨hanswered', hd, hdkey⟩ := keyIDRow_eq hfound
      exact ⟨hanswered', d, hd, hdkey⟩
    | error err =>
      rw [hfound, numberRow_eq.mpr ⟨hscan, hanswered, hc⟩] at hr
      cases hr
      obtain ⟨_, h | h | h⟩ := honly c rfl
      · exact absurd h hkey
      · exact absurd h hid
      · exact absurd h hname
  · intro hcond
    by_cases hne : Go.trimSpace ref = ""
    · refine ⟨.error (.new "an id, key id or name is required"), ?_, fun c h => nomatch h⟩
      unfold resolveEAB
      simp only [Act.failIf, if_pos hne]
      rfl
    · unfold ResolvesOnly
      rw [resolveEAB_eval he hne]
      cases hfound : keyIDRow e w (Go.trimSpace ref) with
      | ok d =>
        obtain ⟨_, hd, hdkey⟩ := keyIDRow_eq hfound
        refine ⟨.ok d, rfl, ?_⟩
        rintro _ ⟨⟩
        exact ⟨hd, .inl hdkey⟩
      | error err =>
        cases hnumber : numberRow e w (Go.trimSpace ref) with
        | ok c =>
          obtain ⟨hscan, hanswered, hc⟩ := numberRow_eq.mp hnumber
          refine ⟨.ok c, rfl, ?_⟩
          rintro _ ⟨⟩
          by_contra hwrong
          obtain ⟨hkeyAnswered, d, hd, hdkey⟩ := hcond c ⟨hc, hscan,
            fun h => hwrong ⟨hc, .inr (.inl h)⟩, fun h => hwrong ⟨hc, .inl h⟩,
            fun h => hwrong ⟨hc, .inr (.inr h)⟩⟩ hanswered
          obtain ⟨d', hd'⟩ := keyIDRow_found hkeyAnswered hd hdkey
          rw [hfound] at hd'
          cases hd'
        | error err' =>
          obtain ⟨r, hr, hname⟩ := credByName_eval (e := e) (w := w) (Go.trimSpace ref)
          refine ⟨r, hr, ?_⟩
          intro c hc
          have honly := hname c hc
          have hmem : c ∈ named (Go.trimSpace ref) w.acme.eabCreds.rows := by
            rw [honly]
            exact List.mem_singleton_self c
          exact ⟨List.mem_of_mem_filter hmem, .inr (.inr honly)⟩

end

/-! ## A credential and two references -/

section

/-- No rune outside ASCII folds to another one. -/
@[reducible] def asciiFolding : Go.Folding := ⟨fun _ _ => false⟩

attribute [local instance] Go.asciiRuntime asciiFolding

/-- An environment in which every statement answers. -/
def calm : eabSig.Stmt → Env := fun _ => { now := 100 }

/-- The only credential has the id 1, the key id `kid-1` and the name `ops`: its key id resolves to
nothing else. -/
theorem kid_resolvesOnly : ResolvesOnly calm (World.empty Samples.creds) "kid-1" := by
  refine (resolveEAB_resolvesOnly (fun _ => show (0 : Int) < 100 by decide) "kid-1").mpr ?_
  rintro c ⟨_, hscan, _⟩
  have hnone : Go.scanInt (Go.trimSpace "kid-1") = none := by decide +kernel
  rw [hnone] at hscan
  cases hscan

/-- The reference `1st` is neither, and resolves to it. -/
theorem first_misread : ¬ ResolvesOnly calm (World.empty Samples.creds) "1st" := by
  rintro ⟨r, hr, honly⟩
  have hrun : ((resolveEAB "1st").run.evalWith eabExec calm (World.empty Samples.creds)).map
      (fun r => r.1.toOption) = some (some Samples.cred) := by decide +kernel
  rw [hr] at hrun
  obtain rfl : r = .ok Samples.cred := by
    cases r with
    | error _ => cases hrun
    | ok c => exact congrArg Except.ok (Option.some.inj (Option.some.inj hrun))
  obtain ⟨_, h⟩ := honly _ rfl
  revert h
  decide +kernel

end

end Goca.Acme
