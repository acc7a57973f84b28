import Goca.Store.Step
import Goca.Web.TrustDomains

/-!
# Trust domains follow the table

Each process keeps verifiers, a start makes rows and verifiers of the configuration file, and the
rows can change under all of them. In every run a workload is nevertheless authenticated under what
the row of its trust domain said when its request read it: a process that has kept a verifier uses
it only for a row with the same fields, and none for a row that is disabled or does not build. Only
where the row is missing a process may fall back on its configuration file, under the name
`default`, where its start found no enabled row and nobody has made it forget.
-/

set_option autoImplicit false

namespace Goca.K8s

open Goca.Auth (ApiError)
open Goca.Secret (decryptString isEncrypted)
open Interleave (Act After Event Pool Prog Sem Trace after_snoc mem_own own)
open Interleave.Act

/-! ## What is asked of the table -/

/-- A statement that does not look for a row by its name. -/
def Nameless (s : Stmt) : Prop := ∀ name, s ≠ .selectMethodByName name

theorem db_nameless {s : Stmt} (hs : Nameless s) : (db s).Uses Nameless := .ask hs fun _ => .pure _

theorem getK8sAuthMethod_nameless (id : Nat) : (getK8sAuthMethod id).Uses Nameless :=
  (db_nameless fun _ h => by cases h).mapResult _

theorem setK8sAuthMethodDisabled_nameless (id : Nat) (disabled : Bool) :
    (setK8sAuthMethodDisabled id disabled).Uses Nameless :=
  (db_nameless fun _ h => by cases h).mapResult _

theorem deleteK8sAuthMethod_nameless (id : Nat) : (deleteK8sAuthMethod id).Uses Nameless :=
  (db_nameless fun _ h => by cases h).mapResult _

theorem createK8sAuthMethod_nameless (m : K8sAuthMethod) : (createK8sAuthMethod m).Uses Nameless :=
  (db_nameless fun _ h => by cases h).bind fun _ =>
    (db_nameless fun _ h => by cases h).mapResult _

theorem updateK8sAuthMethod_nameless (m : K8sAuthMethod) :
    (updateK8sAuthMethod m).Uses Nameless := by
  unfold updateK8sAuthMethod
  refine Uses.bind (uses_ite (fun _ => ?_) fun _ => uses_pure _) fun token =>
    Uses.bind ((db_nameless fun _ h => by cases h).mapResult _) fun _ =>
      getK8sAuthMethod_nameless _
  exact (getK8sAuthMethod_nameless _).bind fun _ => uses_pure _

theorem listK8sAuthMethods_nameless : listK8sAuthMethods.Uses Nameless :=
  db_nameless fun _ h => by cases h

/-! ## Fingerprints -/

theorem hexValue_of_mem_hexEncode {b : List UInt8} {c : Char} (h : c ∈ (hexEncode b).toList) :
    Go.hexValue c ≠ none := by
  rw [hexEncode, String.toList_ofList, List.mem_flatMap] at h
  obtain ⟨x, -, hc⟩ := h
  have hx := x.toNat_lt
  rw [List.mem_cons, List.mem_singleton] at hc
  rcases hc with rfl | rfl
  · rw [Go.hexValue_digitChar _ (by omega)]
    exact Option.some_ne_none _
  · rw [Go.hexValue_digitChar _ (by omega)]
    exact Option.some_ne_none _

theorem hexEncode_injective {a b : List UInt8} (h : hexEncode a = hexEncode b) : a = b := by
  unfold hexEncode at h
  rw [String.ofList_inj] at h
  induction a generalizing b with
  | nil =>
    cases b with
    | nil => rfl
    | cons y b => cases h
  | cons x a ih =>
    cases b with
    | nil => cases h
    | cons y b =>
      simp only [List.flatMap_cons, List.cons_append, List.nil_append, List.cons.injEq] at h
      obtain ⟨hhigh, hlow, hrest⟩ := h
      have hx := x.toNat_lt
      have hy := y.toNat_lt
      have hdigit {m n : Nat} (hm : m < 16) (hn : n < 16) (hmn : m.digitChar = n.digitChar) :
          m = n := by
        have := congrArg Go.hexValue hmn
        rwa [Go.hexValue_digitChar m hm, Go.hexValue_digitChar n hn, Option.some.injEq] at this
      have h₁ := hdigit (by omega) (by omega) hhigh
      have h₂ := hdigit (by omega) (by omega) hlow
      rw [ih hrest, UInt8.toNat_inj.mp (by omega : x.toNat = y.toNat)]

/-- No field of a row contains a zero byte. -/
def K8sAuthMethod.Clean (m : K8sAuthMethod) : Prop := ∀ f ∈ m.fields, '\x00' ∉ f.toList

/-- A row without zero bytes shares what is written into the digest with rows of its fields only. -/
theorem fields_of_digested {row row' : K8sAuthMethod} (hclean : row.Clean)
    (h : row'.digested = row.digested) : row'.fields = row.fields := by
  unfold K8sAuthMethod.digested at h
  rw [String.ofList_inj] at h
  refine List.map_injective_iff.mpr (fun _ _ => String.toList_injective)
    (Words.terminated_inj ?_ rfl h)
  intro f hf
  obtain ⟨g, hg, rfl⟩ := List.mem_map.mp hf
  exact hclean g hg

variable [Platform]

/-- The fingerprint of a row is never the mark of the configuration file. -/
theorem k8sRowFingerprint_ne_legacy (row : K8sAuthMethod) :
    k8sRowFingerprint row ≠ legacyConfigFingerprint := by
  intro h
  refine hexValue_of_mem_hexEncode (b := Platform.sum256 row.digested) (c := 'l') ?_ (by decide)
  rw [← k8sRowFingerprint, h]
  decide

theorem toOption_plainToken (pre token : String) : (plainToken pre token).toOption =
    if isEncrypted token = true then (decryptString token).toOption else some token := by
  unfold plainToken
  split
  · exact Go.toOption_mapError _ _
  · rfl

/-- A verifier is built from the fields alone: only an error names the row. -/
theorem verifierFromRow_congr {row row' : K8sAuthMethod} (h : row'.fields = row.fields) :
    (verifierFromRow row').toOption = (verifierFromRow row).toOption := by
  obtain ⟨_, name, audience, issuer, api, ca, token, skip, _, _⟩ := row
  obtain ⟨_, name', audience', issuer', api', ca', token', skip', _, _⟩ := row'
  simp only [K8sAuthMethod.fields, List.cons.injEq, and_true] at h
  obtain ⟨rfl, rfl, rfl, rfl, rfl, hskip⟩ := h
  obtain rfl : skip' = skip := by
    revert hskip
    cases skip' <;> cases skip <;> decide
  simp only [verifierFromRow, Go.toOption_bind, toOption_plainToken]
  congr 1
  funext plain
  split
  · rfl
  · split
    · rfl
    · rfl

/-! ## The registry of a new process -/

/-- What is registered of the rows was built from one of them. -/
theorem registerRows_get {reg reg' : Registry} {rows : List K8sAuthMethod}
    (h : registerRows reg rows = .ok reg') {name : String} {v : Verifier} {fp : String}
    (hget : reg'.getWithFingerprint name = some (v, fp)) :
    reg.getWithFingerprint name = some (v, fp) ∨
      ∃ row ∈ rows, verifierFromRow row = .ok v ∧ fp = k8sRowFingerprint row := by
  induction rows generalizing reg with
  | nil =>
    cases h
    exact .inl hget
  | cons row rows ih =>
    unfold registerRows at h
    split at h
    · exact (ih h).imp_right fun ⟨row', hrow', hbuilt⟩ =>
        ⟨row', List.mem_cons_of_mem _ hrow', hbuilt⟩
    · split at h
      · cases h
      · next built hbuilt =>
        rcases ih h with hreg | ⟨row', hrow', hbuilt'⟩
        · rw [Registry.getWithFingerprint_set] at hreg
          split at hreg
          · cases hreg
            exact .inr ⟨row, List.mem_cons_self .., hbuilt, rfl⟩
          · exact .inl hreg
        · exact .inr ⟨row', List.mem_cons_of_mem _ hrow', hbuilt'⟩

/-- Nothing is registered where no row is enabled, and only there. -/
theorem registerRows_len {reg reg' : Registry} {rows : List K8sAuthMethod}
    (h : registerRows reg rows = .ok reg') (hlen : reg'.len = 0) :
    reg.len = 0 ∧ ∀ row ∈ rows, row.disabled = true := by
  induction rows generalizing reg with
  | nil =>
    cases h
    exact ⟨hlen, List.forall_mem_nil _⟩
  | cons row rows ih =>
    unfold registerRows at h
    split at h
    · next hdisabled =>
      obtain ⟨hreg, hrows⟩ := ih h
      exact ⟨hreg, List.forall_mem_cons.mpr ⟨hdisabled, hrows⟩⟩
    · split at h
      · cases h
      · exact absurd (ih h).1 (Registry.len_set_ne_zero _ _ _ _)

/-- The verifier of the configuration file is registered under one name only. -/
theorem registerLegacy_get {cfg : CSIConfig} {reg reg' : Registry}
    (h : registerLegacy cfg reg = .ok reg') {name : String} {v : Verifier} {fp : String}
    (hget : reg'.getWithFingerprint name = some (v, fp)) :
    reg.getWithFingerprint name = some (v, fp) ∨
      reg.len = 0 ∧ name = "default" ∧ fp = legacyConfigFingerprint ∧
        legacyCSIVerifier cfg = .ok (some v) := by
  unfold registerLegacy at h
  split at h
  · next hlen =>
    obtain ⟨v?, hv?, rfl⟩ := Go.map_eq_ok.mp h
    cases v? with
    | none => exact .inl hget
    | some built =>
      rw [Registry.getWithFingerprint_set] at hget
      split at hget
      · next hname =>
        cases hget
        exact .inr ⟨hlen, hname, rfl, hv?⟩
      · exact .inl hget
  · cases h
    exact .inl hget

/-! ## What a program asks -/

/-- A lookup of the row of a trust domain, with its answer. -/
abbrev looked (name : String) (x : Except Go.Error (Option K8sAuthMethod)) :
    (s : serverSig.Stmt) × serverSig.Ans s := ⟨.inl (.selectMethodByName name), x⟩

/-- A lookup in the registry of a process. -/
abbrev got (p : Nat) (name : String) (v : Verifier) (fp : String) :
    (s : serverSig.Stmt) × serverSig.Ans s := ⟨.inr (.getWithFingerprint p name), some (v, fp)⟩

/-- With what a process begins: what was listed of the rows, and its configuration file. -/
def Begins (s : Server) (q : Trace serverSig) : Prop :=
  ∃ rows reg, ⟨.inl .listMethods, .ok rows⟩ ∈ q ∧ registerRows .new rows = .ok reg ∧
    registerLegacy s.cfg reg = .ok s.k8s

/-- What may be registered, and with what a process may begin. -/
def Allowed (c : Option Call) (q : Trace serverSig) : serverSig.Stmt → Prop
  | .inr (.setWithFingerprint _ name v fp) => ∃ row, looked name (.ok (some row)) ∈ q ∧
      verifierFromRow row = .ok v ∧ fp = k8sRowFingerprint row
  | .inr (.serve s) => (∃ draw, c = some (.start draw s.cfg)) ∧ Begins s q
  | _ => True

/-- A step after which a process does not have the verifier of the configuration file under a
name. -/
inductive Settles (p : Nat) (name : String) : (s : serverSig.Stmt) → serverSig.Ans s → Prop
  | set (v : Verifier) (fp : String) : Settles p name (.inr (.setWithFingerprint p name v fp)) ()
  | remove : Settles p name (.inr (.remove p name)) ()
  | get {v : Verifier} {fp : String} (h : fp ≠ legacyConfigFingerprint) :
    Settles p name (.inr (.getWithFingerprint p name)) (some (v, fp))

/-- A program has settled a name on a process. -/
def Settled (p : Nat) (name : String) (q : Trace serverSig) : Prop :=
  ∃ s x, Settles p name s x ∧ ⟨s, x⟩ ∈ q

/-- No row was found under a name. -/
def Unfound (name : String) (q : Trace serverSig) : Prop :=
  ∀ row, looked name (.ok (some row)) ∉ q

/-- What `verifierFor` makes of an enabled row, and from what. -/
inductive RowVerifier (p : Nat) (name : String) (row : K8sAuthMethod) (q : Trace serverSig) :
    Option Verifier → Prop
  | cached {v : Verifier} (h : got p name v (k8sRowFingerprint row) ∈ q) :
    RowVerifier p name row q (some v)
  | built : RowVerifier p name row q (verifierFromRow row).toOption

/-- **How `verifierFor` comes to its answer**, after which trace. -/
inductive Resolved (p : Nat) (name : String) (q : Trace serverSig) :
    Except Go.Error (Option Verifier) → Prop
  | failed {e : Go.Error} (read : looked name (.error e) ∈ q) (unfound : Unfound name q) :
    Resolved p name q (.error e)
  | disabled {row : K8sAuthMethod} (read : looked name (.ok (some row)) ∈ q)
    (off : row.disabled = true) (settled : Settled p name q) : Resolved p name q (.ok none)
  | enabled {row : K8sAuthMethod} {v? : Option Verifier}
    (read : looked name (.ok (some row)) ∈ q) (on : row.disabled = false)
    (verifier : RowVerifier p name row q v?) (settled : Settled p name q) :
    Resolved p name q (.ok v?)
  | missing {x : Except Go.Error (Option K8sAuthMethod)} {e : Go.Error}
    (read : looked name x ∈ q) (row : Store.row x = .error e) (notFound : e.isNotFound = true)
    (unfound : Unfound name q) : Resolved p name q (.ok none)
  | legacy {x : Except Go.Error (Option K8sAuthMethod)} {e : Go.Error} {v : Verifier}
    (row : Store.row x = .error e) (notFound : e.isNotFound = true) (unfound : Unfound name q)
    (cached : After (looked name x ∈ ·) (.inr (.getWithFingerprint p name))
      (some (v, legacyConfigFingerprint)) q) : Resolved p name q (.ok (some v))

section Lookup

variable {c : Option Call} {p : Nat} {name : String} {q : Trace serverSig} {α ε : Type}

/-- What follows a step goes on from its answer. -/
theorem traced_step_bind {may : Trace serverSig → serverSig.Stmt → Prop}
    {post : Trace serverSig → Except ε α → Prop} {s : LocalStmt} {f : s.Res → ServerHandler ε α}
    (hs : may q (.inr s)) (hf : ∀ x, (f x).run.Traced may post (q ++ [⟨.inr s, x⟩])) :
    (step s >>= f).run.Traced may post q :=
  Prog.traced_ask.mpr ⟨hs, hf⟩

theorem mem_snoc_left {x y : (s : serverSig.Stmt) × serverSig.Ans s} (h : x ∈ q) : x ∈ q ++ [y] :=
  List.mem_append_left _ h

theorem mem_snoc_self (x : (s : serverSig.Stmt) × serverSig.Ans s) : x ∈ q ++ [x] :=
  List.mem_append_right _ (List.mem_singleton_self _)

theorem Unfound.snoc (h : Unfound name q) {s : serverSig.Stmt} {x : serverSig.Ans s}
    (hne : ∀ row, (⟨s, x⟩ : (s : serverSig.Stmt) × serverSig.Ans s) ≠
      looked name (.ok (some row))) :
    Unfound name (q ++ [⟨s, x⟩]) := by
  intro row hrow
  rcases List.mem_append.mp hrow with hrow | hrow
  · exact h row hrow
  · exact hne row (List.mem_singleton.mp hrow).symm

theorem Unfound.snoc_local (h : Unfound name q) {s : LocalStmt} (x : s.Res) :
    Unfound name (q ++ [⟨.inr s, x⟩]) := h.snoc fun row heq => by cases heq

/-- An enabled row answers with the verifier that was kept for its fields, or a new one. -/
theorem verifierForRow_traced {row : K8sAuthMethod} (read : looked name (.ok (some row)) ∈ q)
    (on : row.disabled = false) :
    (verifierForRow p name row).run.Traced (Allowed c) (fun q r => Resolved p name q r) q := by
  unfold verifierForRow
  refine traced_step_bind trivial fun x => ?_
  have hread := mem_snoc_left (y := ⟨.inr (.getWithFingerprint p name), x⟩) read
  cases hcached : x.filter (·.2 == k8sRowFingerprint row) with
  | some r =>
    obtain ⟨v, fp⟩ := r
    obtain ⟨rfl, hfp⟩ := Option.filter_eq_some_iff.mp hcached
    obtain rfl := eq_of_beq hfp
    have hgot := mem_snoc_self (q := q) (got p name v (k8sRowFingerprint row))
    exact Prog.traced_pure.mpr (.enabled hread on (.cached hgot)
      ⟨_, _, .get (k8sRowFingerprint_ne_legacy row), hgot⟩)
  | none =>
    cases hbuilt : verifierFromRow row with
    | error e =>
      refine traced_step_bind trivial fun _ => Prog.traced_pure.mpr ?_
      have hanswer : RowVerifier p name row (q ++ [⟨.inr (.getWithFingerprint p name), x⟩] ++
        [⟨.inr (.remove p name), ()⟩]) (verifierFromRow row).toOption := .built
      rw [hbuilt] at hanswer
      exact .enabled (mem_snoc_left hread) on hanswer ⟨_, _, .remove, mem_snoc_self _⟩
    | ok v =>
      refine traced_step_bind ⟨row, hread, hbuilt, rfl⟩ fun _ => Prog.traced_pure.mpr ?_
      have hanswer : RowVerifier p name row (q ++ [⟨.inr (.getWithFingerprint p name), x⟩] ++
        [⟨.inr (.setWithFingerprint p name v (k8sRowFingerprint row)), ()⟩])
          (verifierFromRow row).toOption := .built
      rw [hbuilt] at hanswer
      exact .enabled (mem_snoc_left hread) on hanswer ⟨_, _, .set .., mem_snoc_self _⟩

/-- Without a row only the verifier of the configuration file answers. -/
theorem verifierForNone_traced {x : Except Go.Error (Option K8sAuthMethod)} {e : Go.Error}
    (read : looked name x ∈ q) (row : Store.row x = .error e) (notFound : e.isNotFound = true)
    (unfound : Unfound name q) :
    (verifierForNone p name).run.Traced (Allowed c) (fun q r => Resolved p name q r) q := by
  unfold verifierForNone
  refine traced_step_bind trivial fun y => ?_
  have hread := mem_snoc_left (y := ⟨.inr (.getWithFingerprint p name), y⟩) read
  have hunfound := unfound.snoc_local (s := .getWithFingerprint p name) y
  cases hcached : y.filter (·.2 == legacyConfigFingerprint) with
  | some r =>
    obtain ⟨v, fp⟩ := r
    obtain ⟨rfl, hfp⟩ := Option.filter_eq_some_iff.mp hcached
    obtain rfl := eq_of_beq hfp
    exact Prog.traced_pure.mpr (.legacy row notFound hunfound (after_snoc read _ _))
  | none =>
    refine traced_step_bind trivial fun _ => Prog.traced_pure.mpr ?_
    exact .missing (mem_snoc_left hread) row notFound (hunfound.snoc_local _)

/-- **What `verifierFor` answers**, whatever it is answered. -/
theorem verifierFor_traced (hq : Unfound name q) :
    (verifierFor p name).run.Traced (Allowed c) (fun q r => Resolved p name q r) q := by
  refine Prog.traced_ask.mpr ⟨trivial, fun x => ?_⟩
  have hread : looked name x ∈ q ++ [looked name x] := mem_snoc_self _
  cases hx : x with
  | error e =>
    subst hx
    have hunfound : Unfound name (q ++ [looked name (.error e)]) :=
      hq.snoc fun row heq => by cases heq
    show (if e.isNotFound = true then verifierForNone p name else throw e).run.Traced _ _ _
    by_cases hnotFound : e.isNotFound = true
    · rw [if_pos hnotFound]
      exact verifierForNone_traced hread rfl hnotFound hunfound
    · rw [if_neg hnotFound]
      exact Prog.traced_pure.mpr (.failed hread hunfound)
  | ok row? =>
    subst hx
    cases row? with
    | none => exact verifierForNone_traced hread rfl rfl (hq.snoc fun row heq => by cases heq)
    | some row =>
      show (if row.disabled = true then _ else verifierForRow p name row).run.Traced _ _ _
      by_cases hoff : row.disabled = true
      · rw [if_pos hoff]
        refine traced_step_bind trivial fun _ => Prog.traced_pure.mpr ?_
        exact .disabled (mem_snoc_left hread) hoff ⟨_, _, .remove, mem_snoc_self _⟩
      · rw [if_neg hoff]
        exact verifierForRow_traced hread (Bool.not_eq_true _ ▸ hoff)

end Lookup

/-! ## The verification of a token -/

/-- What a verifier makes of the answer of its issuer. -/
def issuerVerdict (answer : Except Go.Error (Except Go.Error TokenClaims)) :
    Except Go.Error Identity := do
  let claims ← answer.mapError fun e => .wrap "k8sauth: verify token: " e ""
  let claims ← claims.mapError fun e => .wrap "k8sauth: decode token claims: " e ""
  claims.identity

/-- What a verifier makes of the answer of the TokenReview API. -/
def reviewVerdict (answer : Except Go.Error TokenReview) : Except Go.Error Identity :=
  answer.bind TokenReview.identity

/-- Why a verifier does not ask its issuer: it has none, or it could not be discovered. -/
inductive Unready (v : Verifier) (q : Trace serverSig) : Go.Error → Prop
  | none (issuer : v.cfg.issuerURL = "") : Unready v q (.new "")
  | undiscovered {e : Go.Error} (issuer : v.cfg.issuerURL ≠ "")
    (asked : (⟨.inr (.newProvider v.cfg.issuerURL), .error e⟩ :
      (s : serverSig.Stmt) × serverSig.Ans s) ∈ q) :
    Unready v q (.wrap ("discover issuer " ++ v.cfg.issuerURL ++ ": ") e "")

/-- **How a verifier answers for a token**: its issuer decides, asked under the audience of the
trust domain, and the API server where the issuer cannot be asked. -/
inductive Verified (v : Verifier) (token : String) (q : Trace serverSig) :
    Except Go.Error Identity → Prop
  | blank (nothing : Go.trimSpace token = "") :
    Verified v token q (.error (.new "k8sauth: empty token"))
  | issuer {answer : Except Go.Error (Except Go.Error TokenClaims)}
    (given : Go.trimSpace token ≠ "") (issuer : v.cfg.issuerURL ≠ "")
    (asked : (⟨.inr (.verifyIDToken v.cfg.issuerURL v.cfg.audience (Go.trimSpace token)), answer⟩ :
      (s : serverSig.Stmt) × serverSig.Ans s) ∈ q) : Verified v token q (issuerVerdict answer)
  | review {e : Go.Error} {answer : Except Go.Error TokenReview}
    (given : Go.trimSpace token ≠ "") (unready : Unready v q e)
    (configured : v.cfg.tokenReviewConfigured = true)
    (asked : (⟨.inr (.tokenReview v.cfg (Go.trimSpace token)), answer⟩ :
      (s : serverSig.Stmt) × serverSig.Ans s) ∈ q) : Verified v token q (reviewVerdict answer)
  | unreachable {e : Go.Error} (given : Go.trimSpace token ≠ "") (unready : Unready v q e)
    (configured : v.cfg.tokenReviewConfigured = false) :
    Verified v token q (.error (.wrap
      "k8sauth: OIDC issuer unreachable and no TokenReview fallback is configured: " e ""))

section Verification

variable {c : Option Call} {p : Nat} {name : String} {q : Trace serverSig} {v : Verifier}
  {token : String} {α β ε : Type}

theorem Unready.snoc {e : Go.Error} (h : Unready v q e)
    (x : (s : serverSig.Stmt) × serverSig.Ans s) : Unready v (q ++ [x]) e := by
  cases h with
  | none issuer => exact .none issuer
  | undiscovered issuer asked => exact .undiscovered issuer (mem_snoc_left asked)

theorem ready_traced : v.ready.run.Traced (Allowed c) (fun q r =>
    (r = .ok () → v.cfg.issuerURL ≠ "") ∧ ∀ e, r = .error e → Unready v q e) q := by
  unfold Verifier.ready
  split
  · next hissuer =>
    refine Prog.traced_pure.mpr ⟨fun h => (by cases h), ?_⟩
    rintro _ ⟨⟩
    exact .none hissuer
  · next hissuer =>
    refine Prog.traced_ask.mpr ⟨trivial, fun x => Prog.traced_pure.mpr ⟨fun _ => hissuer, ?_⟩⟩
    intro e he
    cases x with
    | ok u => cases he
    | error e' =>
      cases he
      exact .undiscovered hissuer (mem_snoc_self _)

theorem verifyOIDC_traced (htoken : Go.trimSpace token ≠ "") (hissuer : v.cfg.issuerURL ≠ "") :
    (v.verifyOIDC (Go.trimSpace token)).run.Traced (Allowed c) (Verified v token) q := by
  refine traced_step_bind trivial fun x => ?_
  have hverified := Verified.issuer htoken hissuer (mem_snoc_self (q := q) ⟨_, x⟩)
  rcases x with e | (e | claims)
  · exact Prog.traced_pure.mpr hverified
  · exact Prog.traced_pure.mpr hverified
  · exact Prog.traced_pure.mpr hverified

theorem verifyTokenReview_traced {e : Go.Error} (htoken : Go.trimSpace token ≠ "")
    (hunready : Unready v q e) (hconfigured : v.cfg.tokenReviewConfigured = true) :
    (v.verifyTokenReview (Go.trimSpace token)).run.Traced (Allowed c) (Verified v token) q := by
  refine traced_step_bind trivial fun x => ?_
  have hverified := Verified.review htoken (hunready.snoc ⟨_, x⟩) hconfigured (mem_snoc_self _)
  cases x with
  | error e => exact Prog.traced_pure.mpr hverified
  | ok r => exact Prog.traced_pure.mpr hverified

/-- **What a verifier answers for a token**, and why. -/
theorem verify_traced : (v.verify token).run.Traced (Allowed c) (Verified v token) q := by
  unfold Verifier.verify
  refine traced_run_failIf_bind (fun htoken => .blank htoken) fun htoken => ?_
  refine traced_run_bind_attempt ready_traced ?_
  rintro q' (e | ⟨⟨⟩⟩) - ⟨hready, hunready⟩
  · show (if v.cfg.tokenReviewConfigured = true then v.verifyTokenReview (Go.trimSpace token)
      else throw _ : ServerHandler Go.Error Identity).run.Traced _ _ _
    split
    · next hconfigured => exact verifyTokenReview_traced htoken (hunready e rfl) hconfigured
    · next hconfigured =>
      exact Prog.traced_pure.mpr
        (.unreachable htoken (hunready e rfl) ((Bool.not_eq_true _).mp hconfigured))
  · exact verifyOIDC_traced htoken (hready rfl)

/-- A step of a process that is not about the table. -/
def Local (s : serverSig.Stmt) : Prop := ∃ l, s = .inr l

theorem step_uses (s : LocalStmt) : (step s : ServerHandler ε s.Res).Uses Local :=
  .ask ⟨s, rfl⟩ fun _ => .pure _

theorem verify_uses : (v.verify token).Uses Local := by
  unfold Verifier.verify
  refine (uses_failIf _ _).bind fun _ => Uses.bind (Uses.attempt ?_) fun r => ?_
  · unfold Verifier.ready
    exact uses_ite (fun _ => uses_throw _) fun _ =>
      Uses.mapError (.ask ⟨_, rfl⟩ fun _ => .pure _) _
  · cases r with
    | ok u =>
      cases u
      exact (step_uses _).bind fun _ => (uses_ofExcept _).bind fun _ =>
        (uses_ofExcept _).bind fun _ => uses_ofExcept _
    | error e =>
      exact uses_ite (fun _ => (step_uses _).bind fun _ => (uses_ofExcept _).bind fun _ =>
        uses_ofExcept _) fun _ => uses_throw _

end Verification

/-! ## The calls -/

/-- How `apiAuthK8s` answers once `verifierFor` has. -/
inductive Outcome [Go.Runtime] (method authz : String) (q : Trace serverSig) :
    Except Go.Error (Option Verifier) → Reply → Prop
  | failed {e : Go.Error} : Outcome method authz q (.error e) (.refused lookupFailed)
  | unknown : Outcome method authz q (.ok none) (.refused (unknownDomain method))
  | anonymous {v : Verifier} (bearer : isBearer authz = false) :
    Outcome method authz q (.ok (some v)) (.refused tokenRequired)
  | rejected {v : Verifier} {e : Go.Error} (bearer : isBearer authz = true)
    (verified : Verified v (bearerToken authz) q (.error e)) :
    Outcome method authz q (.ok (some v)) (.refused (tokenRejected e))
  | admitted {v : Verifier} {id : Identity} (bearer : isBearer authz = true)
    (verified : Verified v (bearerToken authz) q (.ok id)) :
    Outcome method authz q (.ok (some v)) (.admitted { id with authMethod := method })

/-- The process that a call is made to. -/
def Call.process : Call → Option Nat
  | .start _ _ => none
  | .authenticate p _ _ | .list p | .get p _ | .create p _ _ _ | .update p _ _ _ | .disable p _ _
  | .delete p _ => some p

/-- Every row that was found under a name has settled the name on the process. -/
def Tidy (p : Nat) (q : Trace serverSig) : Prop := ∀ name, Unfound name q ∨ Settled p name q

/-- No row was looked for by its name. -/
def Quiet (q : Trace serverSig) : Prop := ∀ name, Unfound name q

/-- What a call has done when it has been answered. -/
structure Ended [Go.Runtime] (c : Call) (q : Trace serverSig) (reply : Reply) : Prop where
  tidy : ∀ p, c.process = some p → Tidy p q
  authenticated : ∀ p header authz, c = .authenticate p header authz →
    ∃ r, Resolved p (authMethodOf header) q r ∧ Outcome (authMethodOf header) authz q r reply

section Calls

variable {c : Option Call} {p : Nat} {name : String} {q : Trace serverSig} {α β ε : Type}

theorem quiet_nil : Quiet [] := fun _ _ h => by cases h

theorem Settled.snoc (h : Settled p name q) (x : (s : serverSig.Stmt) × serverSig.Ans s) :
    Settled p name (q ++ [x]) := by
  obtain ⟨s, a, hs, ha⟩ := h
  exact ⟨s, a, hs, mem_snoc_left ha⟩

theorem Quiet.tidy (h : Quiet q) : Tidy p q := fun name => .inl (h name)

theorem Tidy.snoc_local (h : Tidy p q) {s : serverSig.Stmt} (x : serverSig.Ans s) (hs : Local s) :
    Tidy p (q ++ [⟨s, x⟩]) := by
  obtain ⟨l, rfl⟩ := hs
  exact fun name => (h name).imp (·.snoc_local x) (·.snoc _)

theorem RowVerifier.snoc {row : K8sAuthMethod} {v? : Option Verifier}
    (h : RowVerifier p name row q v?) (x : (s : serverSig.Stmt) × serverSig.Ans s) :
    RowVerifier p name row (q ++ [x]) v? := by
  cases h with
  | cached h => exact .cached (mem_snoc_left h)
  | built => exact .built

theorem Resolved.snoc_local {r : Except Go.Error (Option Verifier)} (h : Resolved p name q r)
    {s : serverSig.Stmt} (x : serverSig.Ans s) (hs : Local s) :
    Resolved p name (q ++ [⟨s, x⟩]) r := by
  obtain ⟨l, rfl⟩ := hs
  cases h with
  | failed read unfound => exact .failed (mem_snoc_left read) (unfound.snoc_local x)
  | disabled read off settled => exact .disabled (mem_snoc_left read) off (settled.snoc _)
  | enabled read on verifier settled =>
    exact .enabled (mem_snoc_left read) on (verifier.snoc _) (settled.snoc _)
  | missing read row notFound unfound =>
    exact .missing (mem_snoc_left read) row notFound (unfound.snoc_local x)
  | legacy row notFound unfound cached =>
    exact .legacy row notFound (unfound.snoc_local x) (cached.extends (List.prefix_append _ _))

theorem Resolved.settled {r : Except Go.Error (Option Verifier)} (h : Resolved p name q r) :
    Unfound name q ∨ Settled p name q := by
  cases h with
  | failed read unfound => exact .inl unfound
  | disabled read off settled => exact .inr settled
  | enabled read on verifier settled => exact .inr settled
  | missing read row notFound unfound => exact .inl unfound
  | legacy row notFound unfound cached => exact .inl unfound

/-! ### Plain steps -/

/-- A step that does not look for a row by its name, and neither registers nor serves. -/
def Plain : serverSig.Stmt → Prop
  | .inl s => Nameless s
  | .inr (.setWithFingerprint _ _ _ _) | .inr (.serve _) => False
  | .inr _ => True

theorem Plain.allowed {s : serverSig.Stmt} (h : Plain s) : Allowed c q s := by
  unfold Allowed
  split
  · exact h.elim
  · exact h.elim
  · trivial

theorem Quiet.snoc (h : Quiet q) {s : serverSig.Stmt} (x : serverSig.Ans s) (hs : Plain s) :
    Quiet (q ++ [⟨s, x⟩]) := by
  refine fun name => (h name).snoc fun row heq => ?_
  cases heq
  exact hs name rfl

/-- What a plain action has asked, it has asked quietly. -/
theorem traced_plain {x : ServerHandler ε α} (hx : x.Uses Plain) (hq : Quiet q) :
    x.run.Traced (Allowed c) (fun q _ => Quiet q) q :=
  Prog.Uses.traced_keeps hx (fun _ _ _ hs => hs.allowed) (fun _ _ x h hs => h.snoc x hs) hq

theorem embed_plain {x : Handler ε α} (hx : x.Uses Nameless) :
    (x.embed : ServerHandler ε α).Uses Plain :=
  Prog.Uses.embed (fun _ hs => hs) hx

theorem createdMethod_nameless (draw : Except Go.Error Nat)
    (body : Except String Web.CsiAuthMethodBody) (user : String) :
    (createdMethod draw body user).Uses Nameless := by
  unfold createdMethod
  exact (uses_ofExcept _).bind fun _ => (uses_failIf _ _).bind fun _ => (uses_ofExcept _).bind
    fun _ => ((createK8sAuthMethod_nameless _).mapError _).bind fun _ => uses_pure _

theorem updatedMethod_nameless (draw : Except Go.Error Nat) (path : String)
    (body : Except String Web.CsiAuthMethodBody) :
    (updatedMethod draw path body).Uses Nameless := by
  unfold updatedMethod
  exact (uses_ofExcept _).bind fun _ => (uses_ofExcept _).bind fun _ =>
    ((getK8sAuthMethod_nameless _).mapError _).bind fun _ => (uses_ofExcept _).bind fun _ =>
      ((updateK8sAuthMethod_nameless _).mapError _).bind fun _ => uses_pure _

theorem migrateLegacyCSIToRow_nameless (draw : Except Go.Error Nat) (cfg : CSIConfig) :
    (migrateLegacyCSIToRow draw cfg).Uses Nameless := by
  unfold migrateLegacyCSIToRow
  refine uses_ite (fun _ => uses_pure _) fun _ => ?_
  refine (listK8sAuthMethods_nameless.mapError _).bind fun rows => ?_
  refine uses_ite (fun _ => uses_pure _) fun _ => uses_ite (fun _ => uses_pure _) fun _ => ?_
  exact (uses_ofExcept _).bind fun _ =>
    ((createK8sAuthMethod_nameless _).mapError _).bind fun _ => uses_pure _

/-! ### Refreshing, starting and authenticating -/

/-- A step that looks for a row by one name at most. -/
def LooksUp (name : String) (s : serverSig.Stmt) : Prop :=
  s = .inl (.selectMethodByName name) ∨ Local s

theorem verifierFor_uses : (verifierFor p name).Uses (LooksUp name) := by
  have hstep (s : LocalStmt) : (step s : ServerHandler Go.Error s.Res).Uses (LooksUp name) :=
    (step_uses s).mono fun _ => .inr
  refine Uses.bind (.ask (.inl rfl) fun _ => .pure _) fun found => ?_
  cases found with
  | ok row =>
    refine uses_ite (fun _ => (hstep _).bind fun _ => uses_pure _) fun _ => ?_
    refine (hstep _).bind fun cached => ?_
    cases cached.filter (·.2 == k8sRowFingerprint row) with
    | some r => exact uses_pure _
    | none =>
      cases verifierFromRow row with
      | error e => exact (hstep _).bind fun _ => uses_pure _
      | ok v => exact (hstep _).bind fun _ => uses_pure _
  | error e =>
    refine uses_ite (fun _ => (hstep _).bind fun cached => ?_) fun _ => uses_throw _
    cases cached.filter (·.2 == legacyConfigFingerprint) with
    | some r => exact uses_pure _
    | none => exact (hstep _).bind fun _ => uses_pure _

/-- After a lookup every row that was found has settled its name. -/
theorem verifierFor_tidy (hq : Quiet q) : (verifierFor p name).run.Traced (Allowed c)
    (fun q r => Resolved p name q r ∧ Tidy p q) q := by
  have hothers : (verifierFor p name).run.Traced (Allowed c)
      (fun q r => Resolved p name q r ∧ ∀ name', name' ≠ name → Unfound name' q) q := by
    refine Prog.Traced.and_keeps (verifierFor_traced (hq name)) verifierFor_uses
      (fun q s x h hs name' hne => ?_) fun name' _ => hq name'
    rcases hs with rfl | ⟨l, rfl⟩
    · refine (h name' hne).snoc fun row heq => ?_
      cases heq
      exact hne rfl
    · exact (h name' hne).snoc_local x
  refine hothers.mono (fun _ _ => id) fun q' r ⟨hr, hu⟩ => ⟨hr, fun name' => ?_⟩
  by_cases hname : name' = name
  · subst hname
    exact hr.settled
  · exact .inl (hu name' hname)

theorem refreshK8sRegistry_tidy (hq : Quiet q) :
    (refreshK8sRegistry p name : ServerHandler ε Unit).run.Traced (Allowed c)
      (fun q _ => Tidy p q) q := by
  have hattempt : ((verifierFor p name).attempt : ServerHandler ε _).run.Traced (Allowed c)
      (fun q _ => Tidy p q) q := by
    rw [run_attempt]
    exact (verifierFor_tidy hq).bind fun q' r _ h => Prog.traced_pure.mpr h.2
  exact traced_run_bind hattempt (fun q' _ _ h => Prog.traced_pure.mpr h) fun _ _ _ h => h

/-- A handler that ends with a refresh has settled what it found. -/
theorem refreshed_tidy {a : α} (hq : Quiet q) :
    (refreshK8sRegistry p name >>= fun _ => pure a : ServerHandler ε α).run.Traced (Allowed c)
      (fun q _ => Tidy p q) q :=
  traced_run_bind (refreshK8sRegistry_tidy hq) (fun _ _ _ h => Prog.traced_pure.mpr h)
    fun _ _ _ h => h

/-- A plain action and what follows it leave no found row unsettled. -/
theorem plain_bind {x : ServerHandler ε α} {f : α → ServerHandler ε β} (hx : x.Uses Plain)
    (hq : Quiet q)
    (hf : ∀ a q', Quiet q' → (f a).run.Traced (Allowed c) (fun q _ => Tidy p q) q') :
    (x >>= f).run.Traced (Allowed c) (fun q _ => Tidy p q) q :=
  traced_run_bind (traced_plain hx hq) (fun q' a _ hq' => hf a q' hq') fun _ _ _ hq' => hq'.tidy

theorem buildK8sRegistry_lists {cfg : CSIConfig} {q : Trace sig} :
    (buildK8sRegistry cfg).Traced (fun _ _ => True) (fun q k8s => ∃ rows reg,
      ⟨.listMethods, .ok rows⟩ ∈ q ∧ registerRows .new rows = .ok reg ∧
        registerLegacy cfg reg = .ok k8s) q := by
  unfold buildK8sRegistry
  refine Traced.bind (m := fun q rows => ⟨.listMethods, .ok rows⟩ ∈ q) (Traced.mapError ?_) ?_
  · refine Prog.traced_ask.mpr ⟨trivial, fun x => Prog.traced_pure.mpr ?_⟩
    rintro rows rfl
    exact List.mem_append_right _ (List.mem_singleton_self _)
  · intro q rows _ hlisted
    refine traced_bind_ofExcept fun reg hreg => traced_ofExcept fun k8s hk8s => ?_
    exact ⟨rows, reg, hlisted, hreg, hk8s⟩

theorem buildK8sRegistry_nameless (cfg : CSIConfig) : (buildK8sRegistry cfg).Uses Nameless :=
  (listK8sAuthMethods_nameless.mapError _).bind fun _ => (uses_ofExcept _).bind fun _ =>
    uses_ofExcept _

theorem buildK8sRegistry_traced {cfg : CSIConfig} (hq : Quiet q) :
    (buildK8sRegistry cfg).embed.run.Traced (Allowed c)
      (fun q r => (∀ k8s, r = .ok k8s → Begins { cfg, k8s } q) ∧ Quiet q) q := by
  refine Prog.Traced.and_keeps ?_ (embed_plain (buildK8sRegistry_nameless cfg))
    (fun _ _ x h hs => h.snoc x hs) hq
  refine Prog.Traced.embed (fun _ _ _ => trivial) (fun q r h k8s hr => ?_) buildK8sRegistry_lists
  obtain ⟨rows, reg, hlisted, hbuilt⟩ := h k8s hr
  exact ⟨rows, reg, Prog.mem_leftTrace.mp hlisted, hbuilt⟩

theorem newServer_traced {draw : Except Go.Error Nat} {cfg : CSIConfig} (hq : Quiet q) :
    (newServer draw cfg).run.Traced (Allowed (some (.start draw cfg))) (fun q _ => Quiet q) q := by
  have hmigrate : ((migrateLegacyCSIToRow draw cfg).embed.mapError fun e =>
      .wrap "migrate legacy CSI config: " e "" : ServerHandler Go.Error Unit).Uses Plain :=
    (embed_plain (migrateLegacyCSIToRow_nameless draw cfg)).mapError _
  refine traced_run_bind (traced_plain hmigrate hq) (fun q₁ _ _ hq₁ => ?_) fun _ _ _ h => h
  have hbuild : ((buildK8sRegistry cfg).embed.mapError fun e =>
      .wrap "build Kubernetes ServiceAccount token verifiers: " e "" :
        ServerHandler Go.Error Registry).run.Traced (Allowed (some (.start draw cfg)))
      (fun q r => (∀ k8s, r = .ok k8s → Begins { cfg, k8s } q) ∧ Quiet q) q₁ := by
    refine (buildK8sRegistry_traced hq₁).bind fun q r _ h => Prog.traced_pure.mpr ⟨?_, h.2⟩
    exact fun k8s hk8s => h.1 k8s (Go.mapError_eq_ok.mp hk8s)
  refine traced_run_bind hbuild (fun q₂ k8s _ h => ?_) fun _ _ _ h => h.2
  refine Prog.traced_ask.mpr ⟨⟨⟨draw, rfl⟩, h.1 k8s rfl⟩, fun x => Prog.traced_pure.mpr ?_⟩
  exact fun name => (h.2 name).snoc_local (s := .serve { cfg, k8s }) x

/-- How a handler that authenticates nobody ends. -/
theorem ended_replying [Go.Runtime] {call : Call} {err : ε → Reply} {ok : α → Reply}
    {x : ServerHandler ε α} (hcall : ∀ p header authz, call ≠ .authenticate p header authz)
    (h : x.run.Traced (Allowed c) (fun q _ => ∀ p, call.process = some p → Tidy p q) q) :
    (replying err ok x).Traced (Allowed c) (Ended call) q :=
  h.bind fun _ _ _ htidy => Prog.traced_pure.mpr
    ⟨htidy, fun p header authz heq => absurd heq (hcall p header authz)⟩

/-- How a handler that changes rows ends. -/
theorem ended_replying_tidy [Go.Runtime] {call : Call} {err : ε → Reply} {ok : α → Reply}
    {x : ServerHandler ε α} (hcall : ∀ p header authz, call ≠ .authenticate p header authz)
    (hp : call.process = some p) (h : x.run.Traced (Allowed c) (fun q _ => Tidy p q) q) :
    (replying err ok x).Traced (Allowed c) (Ended call) q := by
  refine ended_replying hcall (h.mono (fun _ _ => id) fun q' _ htidy p' hp' => ?_)
  cases hp.symm.trans hp'
  exact htidy

/-- How a handler that only reads ends. -/
theorem ended_replying_plain [Go.Runtime] {call : Call} {err : ε → Reply} {ok : α → Reply}
    {x : ServerHandler ε α} (hcall : ∀ p header authz, call ≠ .authenticate p header authz)
    (hx : x.Uses Plain) (hq : Quiet q) : (replying err ok x).Traced (Allowed c) (Ended call) q :=
  ended_replying hcall ((traced_plain hx hq).mono (fun _ _ => id) fun _ _ h _ _ => h.tidy)

/-- What becomes of a token under a verifier. -/
theorem tokenChecked_traced [Go.Runtime] {v : Verifier} {method authz : String} (htidy : Tidy p q)
    (hr : Resolved p method q (.ok (some v))) :
    (do
      failIf (isBearer authz = false) tokenRequired
      let id ← (v.verify (bearerToken authz)).mapError tokenRejected
      pure { id with authMethod := method } : ServerHandler ApiError Identity).run.Traced
      (Allowed c) (fun q r => Tidy p q ∧ ∃ r', Resolved p method q r' ∧
        Outcome method authz q r' (.of .refused .admitted r)) q := by
  refine traced_run_failIf_bind (fun hb => ⟨htidy, _, hr, .anonymous hb⟩) fun hb => ?_
  have hbearer := (Bool.not_eq_false _).mp hb
  have htraced : (v.verify (bearerToken authz)).run.Traced (Allowed c)
      (Verified v (bearerToken authz)) q := verify_traced
  have hverify := Prog.Traced.and_keeps htraced verify_uses
    (J := fun q => Tidy p q ∧ Resolved p method q (.ok (some v)))
    (fun _ _ x h hs => ⟨h.1.snoc_local x hs, h.2.snoc_local x hs⟩) ⟨htidy, hr⟩
  have hmapped : ((v.verify (bearerToken authz)).mapError tokenRejected).run.Traced (Allowed c)
      (fun q' r => ∃ r', r = r'.mapError tokenRejected ∧
        Verified v (bearerToken authz) q' r' ∧ Tidy p q' ∧ Resolved p method q' (.ok (some v))) q :=
    traced_run_mapError hverify fun _ r h => ⟨r, rfl, h.1, h.2⟩
  refine traced_run_bind hmapped ?_ ?_
  · rintro q' id - ⟨r, heq, hverified, htidy', hr'⟩
    obtain rfl := Go.mapError_eq_ok.mp heq.symm
    exact Prog.traced_pure.mpr ⟨htidy', _, hr', .admitted hbearer hverified⟩
  · rintro q' e - ⟨r, heq, hverified, htidy', hr'⟩
    cases r with
    | ok id => cases heq
    | error e' =>
      cases heq
      exact ⟨htidy', _, hr', .rejected hbearer hverified⟩

/-- **How a request is authenticated**: the verifier first, then the token. -/
theorem apiAuthK8s_traced [Go.Runtime] {header authz : String} (hq : Quiet q) :
    (apiAuthK8s p header authz).run.Traced (Allowed c) (fun q r => Tidy p q ∧
      ∃ r', Resolved p (authMethodOf header) q r' ∧
        Outcome (authMethodOf header) authz q r' (.of .refused .admitted r)) q := by
  have hverifier : ((verifierFor p (authMethodOf header)).mapError fun _ => lookupFailed).run.Traced
      (Allowed c) (fun q r => Tidy p q ∧ ∃ r', Resolved p (authMethodOf header) q r' ∧
        r = r'.mapError fun _ => lookupFailed) q :=
    (verifierFor_tidy hq).bind fun q' r _ h => Prog.traced_pure.mpr ⟨h.2, r, h.1, rfl⟩
  refine traced_run_bind hverifier ?_ ?_
  · rintro q₁ v? - ⟨htidy, r', hr', heq⟩
    obtain rfl := Go.mapError_eq_ok.mp heq.symm
    cases v? with
    | none => exact Prog.traced_pure.mpr ⟨htidy, _, hr', .unknown⟩
    | some v => exact tokenChecked_traced htidy hr'
  · rintro q₁ e - ⟨htidy, r', hr', heq⟩
    cases r' with
    | ok v => cases heq
    | error e' =>
      cases heq
      exact ⟨htidy, _, hr', .failed⟩

/-- **What each call has done** when it has been answered. -/
theorem answer_traced [Go.Runtime] (call : Call) :
    call.answer.Traced (Allowed (some call)) (Ended call) [] := by
  cases call with
  | start draw cfg =>
    refine ended_replying (fun _ _ _ heq => by cases heq) ?_
    exact (newServer_traced quiet_nil).mono (fun _ _ => id) fun _ _ _ _ heq => by cases heq
  | authenticate p header authz =>
    refine (apiAuthK8s_traced quiet_nil).bind fun q r _ h => Prog.traced_pure.mpr ⟨?_, ?_⟩
    · rintro _ ⟨⟩
      exact h.1
    · rintro _ _ _ ⟨⟩
      exact h.2
  | list p =>
    refine ended_replying_plain (fun _ _ _ heq => by cases heq) (embed_plain ?_) quiet_nil
    exact (listK8sAuthMethods_nameless.mapError _).bind fun _ => uses_pure _
  | get p path =>
    refine ended_replying_plain (fun _ _ _ heq => by cases heq) (embed_plain ?_) quiet_nil
    exact (uses_ofExcept _).bind fun _ =>
      ((getK8sAuthMethod_nameless _).mapError _).bind fun _ => uses_pure _
  | create p draw body user =>
    refine ended_replying_tidy (fun _ _ _ heq => by cases heq) rfl ?_
    refine plain_bind (embed_plain (createdMethod_nameless draw body user)) quiet_nil ?_
    exact fun r q hq => refreshed_tidy hq
  | update p draw path body =>
    refine ended_replying_tidy (fun _ _ _ heq => by cases heq) rfl ?_
    refine plain_bind (embed_plain (updatedMethod_nameless draw path body)) quiet_nil ?_
    exact fun r q hq => refreshed_tidy hq
  | disable p path body =>
    refine ended_replying_tidy (fun _ _ _ heq => by cases heq) rfl ?_
    refine plain_bind (uses_ofExcept _) quiet_nil fun id q hq => ?_
    refine plain_bind (uses_ofExcept _) hq fun body q hq => ?_
    refine plain_bind ((embed_plain (getK8sAuthMethod_nameless _)).mapError _) hq fun row q hq => ?_
    refine plain_bind ((embed_plain (setK8sAuthMethodDisabled_nameless _ _)).mapError _) hq ?_
    exact fun _ q hq => refreshed_tidy hq
  | delete p path =>
    have hcount (name : String) : (countSecretBindingsByAuthMethod name).Uses Plain :=
      .ask trivial fun _ => .pure _
    refine ended_replying_tidy (fun _ _ _ heq => by cases heq) rfl ?_
    refine plain_bind (uses_ofExcept _) quiet_nil fun id q hq => ?_
    refine plain_bind ((embed_plain (getK8sAuthMethod_nameless _)).mapError _) hq fun row q hq => ?_
    refine plain_bind (hcount _).attempt hq fun n q hq => ?_
    refine plain_bind (uses_failIf _ _) hq fun _ q hq => ?_
    refine plain_bind ((embed_plain (deleteK8sAuthMethod_nameless _)).mapError _) hq ?_
    exact fun _ q hq => refreshK8sRegistry_tidy hq

end Calls

/-! ## The steps of the processes -/

section Steps

variable {c c' : Cluster} {e : Env} {s : serverSig.Stmt} {x : serverSig.Ans s} {p : Nat}
  {name : String}

/-- A statement over the table does nothing to the processes. -/
theorem table_step {st : Stmt} {y : Except Go.Error st.Res}
    (h : serverExec e c (.inl st) = some (y, c')) :
    exec e.fault c.methods st = some (y, c'.methods) ∧ c'.servers = c.servers := by
  obtain ⟨w, hw, rfl⟩ := Sem.sum_inl.mp h
  exact ⟨hw, rfl⟩

/-- A lookup by name that is answered finds what stands in the table. -/
theorem lookup_answer {row? : Option K8sAuthMethod}
    (h : serverExec e c (.inl (.selectMethodByName name)) = some (.ok row?, c')) :
    c.methods.rows.find? (·.name == name) = row? := by
  have hx := (Prod.mk.inj (Option.some.inj (table_step h).1)).1
  exact Except.ok.inj (Store.Fault.apply_ok hx).1

/-- A lookup that fails has not missed a row. -/
theorem lookup_error {err : Go.Error}
    (h : serverExec e c (.inl (.selectMethodByName name)) = some (.error err, c')) :
    err.isNotFound = false := by
  have hx := (Prod.mk.inj (Option.some.inj (table_step h).1)).1
  rcases e.fault.apply_cases c.methods (c.methods.exec (.selectMethodByName name)) with
    ⟨-, ⟨text, htext⟩, -⟩ | ⟨-, -, hdone | ⟨text, htext⟩⟩
  · cases htext.symm.trans hx
    rfl
  · cases hdone.symm.trans hx
  · cases htext.symm.trans hx
    rfl

theorem list_answer {rows : List K8sAuthMethod}
    (h : serverExec e c (.inl .listMethods) = some (.ok rows, c')) : c.methods.rows = rows := by
  have hx := (Prod.mk.inj (Option.some.inj (table_step h).1)).1
  exact Except.ok.inj (Store.Fault.apply_ok hx).1

theorem length_setRegistry (c : Cluster) (p : Nat) (f : Registry → Registry) :
    (c.setRegistry p f).servers.length = c.servers.length := by
  rw [Cluster.setRegistry, List.length_modify]

theorem servers_setRegistry (c : Cluster) (p p' : Nat) (f : Registry → Registry) :
    (c.setRegistry p f).servers[p']? =
      if p = p' then c.servers[p']?.map fun s => { s with k8s := f s.k8s } else c.servers[p']? := by
  rw [Cluster.setRegistry, List.getElem?_modify]
  by_cases h : p = p'
  · simp [h]
  · simp [h]

/-- What a step can have made of a process. -/
inductive ServerStep (c : Cluster) (p : Nat) :
    (s : serverSig.Stmt) → serverSig.Ans s → Server → Prop
  | same {s : serverSig.Stmt} {x : serverSig.Ans s} {srv : Server}
    (h : c.servers[p]? = some srv) : ServerStep c p s x srv
  | serve (srv : Server) (h : p = c.servers.length) : ServerStep c p (.inr (.serve srv)) p srv
  | set {srv : Server} (h : c.servers[p]? = some srv) (name : String) (v : Verifier) (fp : String) :
    ServerStep c p (.inr (.setWithFingerprint p name v fp)) ()
      { srv with k8s := srv.k8s.setWithFingerprint name v fp }
  | remove {srv : Server} (h : c.servers[p]? = some srv) (name : String) :
    ServerStep c p (.inr (.remove p name)) () { srv with k8s := srv.k8s.remove name }

/-- **One step**, as one process sees it. -/
theorem server_step (h : serverExec e c s = some (x, c')) {srv : Server}
    (hp : c'.servers[p]? = some srv) : ServerStep c p s x srv := by
  rcases s with st | l
  · rw [(table_step h).2] at hp
    exact .same hp
  · cases l with
    | serve new =>
      cases h
      rw [List.getElem?_append] at hp
      split at hp
      · exact .same hp
      · next hlt =>
        rw [List.getElem?_singleton] at hp
        split at hp
        · next heq =>
          cases hp
          obtain rfl : p = c.servers.length := by omega
          exact .serve _ rfl
        · cases hp
    | getWithFingerprint p' name =>
      obtain ⟨_, -, heq⟩ := Option.map_eq_some_iff.mp h
      cases heq
      exact .same hp
    | setWithFingerprint p' name v fp =>
      obtain ⟨_, -, heq⟩ := Option.map_eq_some_iff.mp h
      cases heq
      rw [servers_setRegistry] at hp
      split at hp
      · next heq =>
        subst heq
        obtain ⟨old, hold, rfl⟩ := Option.map_eq_some_iff.mp hp
        exact .set hold name v fp
      · exact .same hp
    | remove p' name =>
      obtain ⟨_, -, heq⟩ := Option.map_eq_some_iff.mp h
      cases heq
      rw [servers_setRegistry] at hp
      split at hp
      · next heq =>
        subst heq
        obtain ⟨old, hold, rfl⟩ := Option.map_eq_some_iff.mp hp
        exact .remove hold name
      · exact .same hp
    | countBindings name => cases h; exact .same hp
    | newProvider issuer => cases h; exact .same hp
    | verifyIDToken issuer clientID token => cases h; exact .same hp
    | tokenReview cfg token => cases h; exact .same hp

theorem length_servers_step (h : serverExec e c s = some (x, c')) :
    c.servers.length ≤ c'.servers.length := by
  rcases s with st | l
  · exact Nat.le_of_eq (congrArg List.length (table_step h).2.symm)
  · cases l with
    | serve new =>
      cases h
      rw [List.length_append]
      omega
    | getWithFingerprint p' name =>
      obtain ⟨_, -, heq⟩ := Option.map_eq_some_iff.mp h
      cases heq
      exact Nat.le_refl _
    | setWithFingerprint p' name v fp =>
      obtain ⟨_, -, heq⟩ := Option.map_eq_some_iff.mp h
      cases heq
      exact Nat.le_of_eq (length_setRegistry c p' _).symm
    | remove p' name =>
      obtain ⟨_, -, heq⟩ := Option.map_eq_some_iff.mp h
      cases heq
      exact Nat.le_of_eq (length_setRegistry c p' _).symm
    | countBindings name => cases h; exact Nat.le_refl _
    | newProvider issuer => cases h; exact Nat.le_refl _
    | verifyIDToken issuer clientID token => cases h; exact Nat.le_refl _
    | tokenReview cfg token => cases h; exact Nat.le_refl _

/-- A lookup in a registry answers what the process has. -/
theorem got_answer {v : Verifier} {fp : String}
    (h : serverExec e c (.inr (.getWithFingerprint p name)) = some (some (v, fp), c')) :
    c' = c ∧ ∃ srv, c.servers[p]? = some srv ∧ srv.k8s.getWithFingerprint name = some (v, fp) := by
  obtain ⟨srv, hsrv, heq⟩ := Option.map_eq_some_iff.mp h
  obtain ⟨hget, rfl⟩ := Prod.mk.inj heq
  exact ⟨rfl, srv, hsrv, hget⟩

/-! ### Forgetting the configuration file -/

/-- A process does not have the verifier of its configuration file under a name. -/
def Forgot (p : Nat) (name : String) (c : Cluster) : Prop :=
  p < c.servers.length ∧ ∀ srv v fp, c.servers[p]? = some srv →
    srv.k8s.getWithFingerprint name = some (v, fp) → fp ≠ legacyConfigFingerprint

/-- What is registered for a row does not have the mark of the configuration file. -/
theorem fingerprint_of_allowed {call : Option Call} {q : Trace serverSig} {v : Verifier}
    {fp : String} (h : Allowed call q (.inr (.setWithFingerprint p name v fp))) :
    fp ≠ legacyConfigFingerprint := by
  obtain ⟨row, -, -, rfl⟩ := h
  exact k8sRowFingerprint_ne_legacy row

theorem Forgot.step {call : Option Call} {q : Trace serverSig} (hf : Forgot p name c)
    (ha : Allowed call q s) (h : serverExec e c s = some (x, c')) : Forgot p name c' := by
  refine ⟨Nat.lt_of_lt_of_le hf.1 (length_servers_step h), fun srv v fp hsrv hget => ?_⟩
  cases server_step h hsrv with
  | same hold => exact hf.2 srv v fp hold hget
  | serve _ hp => exact absurd hp (Nat.ne_of_lt hf.1)
  | set hold name' v' fp' =>
    rw [Registry.getWithFingerprint_set] at hget
    split at hget
    · cases hget
      exact fingerprint_of_allowed ha
    · exact hf.2 _ v fp hold hget
  | remove hold name' =>
    rw [Registry.getWithFingerprint_remove] at hget
    split at hget
    · cases hget
    · exact hf.2 _ v fp hold hget

/-- A process forgets its configuration file under a name when its registry does. -/
theorem forgot_setRegistry {old : Server} (hold : c.servers[p]? = some old)
    {f : Registry → Registry} (hf : ∀ v fp, (f old.k8s).getWithFingerprint name = some (v, fp) →
      fp ≠ legacyConfigFingerprint) : Forgot p name (c.setRegistry p f) := by
  refine ⟨?_, fun srv v fp hsrv hget => ?_⟩
  · rw [length_setRegistry]
    exact (List.getElem?_eq_some_iff.mp hold).1
  · rw [servers_setRegistry, if_pos rfl, hold] at hsrv
    cases hsrv
    exact hf v fp hget

/-- After a step that settles a name the process has forgotten its configuration file under it. -/
theorem Settles.forgot {call : Option Call} {q : Trace serverSig} (hs : Settles p name s x)
    (ha : Allowed call q s) (h : serverExec e c s = some (x, c')) : Forgot p name c' := by
  cases hs with
  | set v fp =>
    obtain ⟨old, hold, heq⟩ := Option.map_eq_some_iff.mp h
    cases heq
    refine forgot_setRegistry hold fun v' fp' hget => ?_
    rw [Registry.getWithFingerprint_set, if_pos rfl] at hget
    cases hget
    exact fingerprint_of_allowed ha
  | remove =>
    obtain ⟨old, hold, heq⟩ := Option.map_eq_some_iff.mp h
    cases heq
    refine forgot_setRegistry hold fun v' fp' hget => ?_
    rw [Registry.getWithFingerprint_remove, if_pos rfl] at hget
    cases hget
  | get hfp =>
    obtain ⟨rfl, srv, hsrv, hget⟩ := got_answer h
    refine ⟨(List.getElem?_eq_some_iff.mp hsrv).1, fun srv' v' fp' hsrv' hget' => ?_⟩
    cases hsrv.symm.trans hsrv'
    cases hget.symm.trans hget'
    exact hfp

end Steps

/-! ## Runs -/

/-- Calls in progress over a table, before any process has started. -/
def running [Go.Runtime] (methods : World) (calls : List Call) : Pool serverSig Reply Cluster :=
  .init ⟨methods, []⟩ (calls.map Call.answer)

/-- The calls before move `i` of a schedule. -/
abbrev runningUpto [Go.Runtime] (methods : World) (calls : List Call) (moves : Pool.Schedule Env)
    (i : Nat) : Pool serverSig Reply Cluster := (running methods calls).upto serverExec moves i

/-- At move `i` thread `t` takes a step and is answered. -/
abbrev TakesAt [Go.Runtime] (methods : World) (calls : List Call) (moves : Pool.Schedule Env)
    (i t : Nat) (s : serverSig.Stmt) (x : serverSig.Ans s) : Prop :=
  ∃ e, Pool.AskedAt serverExec (running methods calls) moves i t e s x

/-- The rows of the table before a move. -/
abbrev rowsAt [Go.Runtime] (methods : World) (calls : List Call) (moves : Pool.Schedule Env)
    (i : Nat) : List K8sAuthMethod := (runningUpto methods calls moves i).world.methods.rows

section Runs

variable [Go.Runtime] {methods : World} {calls : List Call} {moves : Pool.Schedule Env}

theorem running_traced (n : Nat) : (runningUpto methods calls moves n).Traced
    (fun t => Allowed calls[t]?)
    (fun t q reply => ∀ call, calls[t]? = some call → Ended call q reply) := by
  refine (Pool.run_traced Pool.lawful_init (Pool.traced_init fun t p hp => ?_) _).2
  rw [List.getElem?_map] at hp
  obtain ⟨call, hcall, rfl⟩ := Option.map_eq_some_iff.mp hp
  rw [hcall]
  refine (answer_traced call).mono (fun _ _ h => h) fun q reply h call' hcall' => ?_
  cases hcall'
  exact h

/-- What a thread does is allowed. -/
theorem allowed_at {i t : Nat} {e : Env} {s : serverSig.Stmt} {x : serverSig.Ans s}
    (h : Pool.AskedAt serverExec (running methods calls) moves i t e s x) :
    Allowed calls[t]? (own t (runningUpto methods calls moves i).history) s :=
  Pool.next_allowed (running_traced i) h.next

/-- What is on a thread's trace it has asked. -/
theorem asked_of_own {n t : Nat} (hn : n ≤ moves.length) {s : serverSig.Stmt}
    {x : serverSig.Ans s} (h : (⟨s, x⟩ : (s : serverSig.Stmt) × serverSig.Ans s) ∈
      own t (runningUpto methods calls moves n).history) :
    ∃ i, i < n ∧ TakesAt methods calls moves i t s x := by
  obtain ⟨i, e, hi, h⟩ := Pool.history_origin hn rfl (mem_own.mp h)
  exact ⟨i, hi, e, h⟩

/-- A row that was found by its name stood in the table. -/
theorem stood_of_looked {i t : Nat} {name : String} {row : K8sAuthMethod}
    (h : TakesAt methods calls moves i t (.inl (.selectMethodByName name)) (.ok (some row))) :
    row ∈ rowsAt methods calls moves i := by
  obtain ⟨e, h⟩ := h
  exact List.mem_of_find?_eq_some (lookup_answer h.exec)

/-- A lookup that finds no row is answered with none: the errors of the database say no more. -/
theorem missed_of_own {n t : Nat} (hn : n ≤ moves.length) {name : String}
    {x : Except Go.Error (Option K8sAuthMethod)} {e : Go.Error}
    (hread : looked name x ∈ own t (runningUpto methods calls moves n).history)
    (hrow : Store.row x = .error e) (hnotFound : e.isNotFound = true) :
    ∃ m, m < n ∧ TakesAt methods calls moves m t (.inl (.selectMethodByName name)) (.ok none) := by
  obtain ⟨m, hm, e', htakes⟩ := asked_of_own hn hread
  rcases x with err | _ | row
  · cases hrow
    rw [lookup_error htakes.exec] at hnotFound
    cases hnotFound
  · exact ⟨m, hm, e', htakes⟩
  · cases hrow

/-! ### What a process has kept -/

/-- A verifier that was built from a row that stood in the table, under the row's fingerprint. -/
def RowBuilt (methods : World) (calls : List Call) (moves : Pool.Schedule Env) (n : Nat)
    (v : Verifier) (fp : String) : Prop :=
  ∃ i row, i ≤ n ∧ row ∈ rowsAt methods calls moves i ∧ verifierFromRow row = .ok v ∧
    fp = k8sRowFingerprint row

/-- Where a process began, and where what it has kept comes from. -/
def Kept (methods : World) (calls : List Call) (moves : Pool.Schedule Env) (n p : Nat)
    (srv : Server) : Prop :=
  ∃ b k new, k < n ∧ TakesAt methods calls moves k b (.inr (.serve new)) p ∧
    ∀ name v fp, srv.k8s.getWithFingerprint name = some (v, fp) →
      RowBuilt methods calls moves n v fp ∨
        (fp = legacyConfigFingerprint ∧ new.k8s.getWithFingerprint name = some (v, fp))

theorem RowBuilt.later {n : Nat} {v : Verifier} {fp : String}
    (h : RowBuilt methods calls moves n v fp) : RowBuilt methods calls moves (n + 1) v fp := by
  obtain ⟨i, row, hi, hbuilt⟩ := h
  exact ⟨i, row, Nat.le_succ_of_le hi, hbuilt⟩

/-- What a process keeps it has kept, or has built from a row. -/
theorem Kept.changed {n p : Nat} {srv : Server} {k8s : Registry}
    (h : Kept methods calls moves n p srv)
    (hk8s : ∀ name v fp, k8s.getWithFingerprint name = some (v, fp) →
      RowBuilt methods calls moves n v fp ∨ srv.k8s.getWithFingerprint name = some (v, fp)) :
    Kept methods calls moves (n + 1) p { srv with k8s } := by
  obtain ⟨b, k, new, hk, hserve, hkept⟩ := h
  refine ⟨b, k, new, Nat.lt_succ_of_lt hk, hserve, fun name v fp hget => ?_⟩
  rcases hk8s name v fp hget with hbuilt | hold
  · exact .inl hbuilt.later
  · exact (hkept name v fp hold).imp_left RowBuilt.later

theorem Kept.later {n p : Nat} {srv : Server} (h : Kept methods calls moves n p srv) :
    Kept methods calls moves (n + 1) p srv := h.changed fun _ _ _ hget => .inr hget

/-- What a process registers for a row was built from it. -/
theorem rowBuilt_of_allowed {n t p : Nat} (hn : n ≤ moves.length) {name : String} {v : Verifier}
    {fp : String} (h : Allowed calls[t]? (own t (runningUpto methods calls moves n).history)
      (.inr (.setWithFingerprint p name v fp))) : RowBuilt methods calls moves n v fp := by
  obtain ⟨row, hlooked, hbuilt, hfp⟩ := h
  obtain ⟨i, hi, htakes⟩ := asked_of_own hn hlooked
  exact ⟨i, row, Nat.le_of_lt hi, stood_of_looked htakes, hbuilt, hfp⟩

/-- With what a process begins is built from rows, or of its configuration file. -/
theorem kept_of_begins {n b : Nat} (hn : n ≤ moves.length) {new : Server}
    (h : Begins new (own b (runningUpto methods calls moves n).history)) {name : String}
    {v : Verifier} {fp : String} (hget : new.k8s.getWithFingerprint name = some (v, fp)) :
    RowBuilt methods calls moves n v fp ∨ (name = "default" ∧ fp = legacyConfigFingerprint ∧
      legacyCSIVerifier new.cfg = .ok (some v) ∧ ∃ i, i < n ∧
        TakesAt methods calls moves i b (.inl .listMethods) (.ok (rowsAt methods calls moves i)) ∧
        ∀ row ∈ rowsAt methods calls moves i, row.disabled = true) := by
  obtain ⟨rows, reg, hlisted, hrows, hlegacy⟩ := h
  obtain ⟨i, hi, e, hlist⟩ := asked_of_own hn hlisted
  obtain rfl := list_answer hlist.exec
  rcases registerLegacy_get hlegacy hget with hreg | ⟨hlen, hname, hfp, hv⟩
  · rcases registerRows_get hrows hreg with hnew | ⟨row, hrow, hbuilt, hfp⟩
    · rw [Registry.getWithFingerprint_new] at hnew
      cases hnew
    · exact .inl ⟨i, row, Nat.le_of_lt hi, hrow, hbuilt, hfp⟩
  · exact .inr ⟨hname, hfp, hv, i, hi, ⟨e, hlist⟩, (registerRows_len hrows hlen).2⟩

/-- **Where everything in a registry comes from**, before every move. -/
theorem kept_upto {n : Nat} {p : Nat} {srv : Server}
    (hp : (runningUpto methods calls moves n).world.servers[p]? = some srv) :
    Kept methods calls moves n p srv := by
  have hinit : ∀ p srv, (runningUpto methods calls moves 0).world.servers[p]? = some srv →
      Kept methods calls moves 0 p srv := fun p srv hp => by cases hp
  refine Pool.upto_keeps
    (J := fun n (c : Cluster) => ∀ p srv, c.servers[p]? = some srv →
      Kept methods calls moves n p srv)
    (fun n c h p srv hp => (h p srv hp).later) ?_ (Nat.zero_le n) hinit p srv hp
  · intro j t e s x _ _ hasked hkept p srv hp
    have hj := Nat.le_of_lt (List.getElem?_eq_some_iff.mp hasked.move).1
    have hallowed := allowed_at hasked
    cases server_step hasked.exec hp with
    | same hold => exact (hkept p srv hold).later
    | serve _ hlen =>
      refine ⟨t, j, srv, Nat.lt_succ_self j, ⟨e, hasked⟩, fun name v fp hget => ?_⟩
      rcases kept_of_begins hj hallowed.2 hget with hbuilt | ⟨-, hfp, -⟩
      · exact .inl hbuilt.later
      · exact .inr ⟨hfp, hget⟩
    | set hold name v fp =>
      refine (hkept p _ hold).changed fun name' v' fp' hget => ?_
      rw [Registry.getWithFingerprint_set] at hget
      split at hget
      · cases hget
        exact .inl (rowBuilt_of_allowed hj hallowed)
      · exact .inr hget
    | remove hold name =>
      refine (hkept p _ hold).changed fun name' v' fp' hget => ?_
      rw [Registry.getWithFingerprint_remove] at hget
      split at hget
      · cases hget
      · exact .inr hget

/-! ### What the answer rests on -/

/-- The verifier of a trust domain as its row has it. -/
def tableVerifier (row? : Option K8sAuthMethod) : Option Verifier :=
  row?.bind fun row => if row.disabled = true then none else (verifierFromRow row).toOption

/-- A call to a process that had ended by a move had found a row under a name. -/
def Superseded (methods : World) (calls : List Call) (moves : Pool.Schedule Env) (p : Nat)
    (name : String) (n : Nat) : Prop :=
  ∃ u call i row, calls[u]? = some call ∧ call.process = some p ∧ i < n ∧
    TakesAt methods calls moves i u (.inl (.selectMethodByName name)) (.ok (some row)) ∧
    (runningUpto methods calls moves n).next? u = none

/-- A process began with the verifier of its configuration file: its start had found no enabled
row. -/
def FromFile (methods : World) (calls : List Call) (moves : Pool.Schedule Env) (p n : Nat)
    (v : Verifier) : Prop :=
  ∃ b draw cfg i k k8s, calls[b]? = some (.start draw cfg) ∧ i < k ∧ k < n ∧
    TakesAt methods calls moves i b (.inl .listMethods) (.ok (rowsAt methods calls moves i)) ∧
    (∀ row ∈ rowsAt methods calls moves i, row.disabled = true) ∧
    TakesAt methods calls moves k b (.inr (.serve ⟨cfg, k8s⟩)) p ∧
    legacyCSIVerifier cfg = .ok (some v)

/-- **How a verifier follows the table**, of what a request has read there under its name at move
`m`. -/
inductive Follows (methods : World) (calls : List Call) (moves : Pool.Schedule Env) (p : Nat)
    (name : String) (m : Nat) : Option K8sAuthMethod → Option Verifier → Prop
  | disabled {row : K8sAuthMethod} (off : row.disabled = true) :
    Follows methods calls moves p name m (some row) none
  | enabled {row row' : K8sAuthMethod} {i : Nat} (on : row.disabled = false)
    (stood : row' ∈ rowsAt methods calls moves i)
    (same : k8sRowFingerprint row' = k8sRowFingerprint row) :
    Follows methods calls moves p name m (some row) (verifierFromRow row').toOption
  | missing : Follows methods calls moves p name m none none
  | file {v : Verifier} {n : Nat} (later : m < n) (default : name = "default")
    (fromFile : FromFile methods calls moves p n v)
    (kept : ¬ Superseded methods calls moves p name n) :
    Follows methods calls moves p name m none (some v)

/-- Two rows that stood in the table have one digest and different fields. -/
def Collision (methods : World) (calls : List Call) (moves : Pool.Schedule Env) : Prop :=
  ∃ i j row row', row ∈ rowsAt methods calls moves i ∧ row' ∈ rowsAt methods calls moves j ∧
    row'.digested ≠ row.digested ∧
    Platform.sum256 row'.digested = Platform.sum256 row.digested

/-- A verifier that follows the table is the one that the row says, unless a field hides a zero byte
or the digest collides. -/
theorem Follows.current {m p : Nat} {name : String} {row : K8sAuthMethod} {v? : Option Verifier}
    (h : Follows methods calls moves p name m (some row) v?)
    (hrow : row ∈ rowsAt methods calls moves m) (hclean : row.Clean) :
    v? = tableVerifier (some row) ∨ Collision methods calls moves := by
  cases h with
  | disabled off =>
    left
    rw [tableVerifier, Option.bind_some, if_pos off]
  | enabled on stood same =>
    by_cases hdigested : ∃ row' i, row' ∈ rowsAt methods calls moves i ∧
        row'.digested ≠ row.digested ∧ k8sRowFingerprint row' = k8sRowFingerprint row
    · obtain ⟨row', i, hstood, hne, hsame⟩ := hdigested
      exact .inr ⟨m, i, row, row', hrow, hstood, hne, hexEncode_injective hsame⟩
    · left
      rw [tableVerifier, Option.bind_some, on, if_neg Bool.false_ne_true]
      refine verifierFromRow_congr (fields_of_digested hclean ?_)
      by_contra hne
      exact hdigested ⟨_, _, stood, hne, same⟩

/-- A process that a call has superseded does not have the verifier of its configuration file. -/
theorem forgot_of_superseded {p n : Nat} (hn : n ≤ moves.length) {name : String}
    (h : Superseded methods calls moves p name n) :
    Forgot p name (runningUpto methods calls moves n).world := by
  obtain ⟨u, call, i, row, hcall, hp, hi, ⟨e, hread⟩, hended⟩ := h
  have hlt : u < (runningUpto methods calls moves n).threads.length := by
    rw [runningUpto, Pool.upto, Pool.length_threads_run]
    show u < (calls.map Call.answer).length
    rw [List.length_map]
    exact (List.getElem?_eq_some_iff.mp hcall).1
  obtain ⟨reply, hreply⟩ := Pool.ended (running_traced n) hlt hended
  rcases (hreply call hcall).tidy p hp name with hunfound | ⟨s, x, hsettles, hmem⟩
  · exact absurd (hread.mem_own hi) (hunfound row)
  · obtain ⟨k, hk, e', hasked⟩ := asked_of_own hn hmem
    have hforgot := hsettles.forgot (allowed_at hasked) hasked.exec
    exact Pool.upto_keeps (J := fun _ c => Forgot p name c) (fun _ _ h => h)
      (fun j t e s x _ _ hj h => h.step (allowed_at hj) hj.exec) hk hforgot

/-- The verifier of the configuration file is found only in a process that began with it and that
nobody has made forget it. -/
theorem follows_file {m n t p : Nat} {name : String} {v : Verifier} (hmn : m < n)
    (h : TakesAt methods calls moves n t (.inr (.getWithFingerprint p name))
      (some (v, legacyConfigFingerprint))) :
    Follows methods calls moves p name m none (some v) := by
  obtain ⟨e, h⟩ := h
  have hn := Nat.le_of_lt (List.getElem?_eq_some_iff.mp h.move).1
  obtain ⟨-, srv, hsrv, hget⟩ := got_answer h.exec
  have hkept : ¬ Superseded methods calls moves p name n := fun hsuper =>
    (forgot_of_superseded hn hsuper).2 srv v _ hsrv hget rfl
  obtain ⟨b, k, new, hk, ⟨e', hserve⟩, hold⟩ := kept_upto hsrv
  have hrowless (h : RowBuilt methods calls moves n v legacyConfigFingerprint) : False := by
    obtain ⟨_, row, -, -, -, hfp⟩ := h
    exact k8sRowFingerprint_ne_legacy row hfp.symm
  have hbegan := (hold name v _ hget).resolve_left hrowless
  obtain ⟨⟨draw, hcall⟩, hbegins⟩ := allowed_at hserve
  rcases kept_of_begins (hk.le.trans hn) hbegins hbegan.2 with hbuilt | hfile
  · obtain ⟨_, row, -, -, -, hfp⟩ := hbuilt
    exact absurd hfp.symm (k8sRowFingerprint_ne_legacy row)
  · obtain ⟨hname, -, hv, i, hi, hlisted, hoff⟩ := hfile
    exact .file hmn hname ⟨b, draw, new.cfg, i, k, new.k8s, hcall, hi, hk, hlisted, hoff,
      ⟨e', hserve⟩, hv⟩ hkept

/-- A verifier that was kept for a row follows it. -/
theorem follows_cached {m n t p : Nat} {name : String} {row : K8sAuthMethod} {v : Verifier}
    (on : row.disabled = false)
    (h : TakesAt methods calls moves n t (.inr (.getWithFingerprint p name))
      (some (v, k8sRowFingerprint row))) :
    Follows methods calls moves p name m (some row) (some v) := by
  obtain ⟨e, h⟩ := h
  obtain ⟨-, srv, hsrv, hget⟩ := got_answer h.exec
  obtain ⟨b, k, new, -, -, hold⟩ := kept_upto hsrv
  rcases hold name v _ hget with ⟨i, row', -, hstood, hbuilt, hfp⟩ | ⟨hfp, -⟩
  · have hfollows : Follows methods calls moves p name m (some row)
        (verifierFromRow row').toOption := .enabled on hstood hfp.symm
    rw [hbuilt] at hfollows
    exact hfollows
  · exact absurd hfp (k8sRowFingerprint_ne_legacy row)

/-! ## The law -/

/-- A call has been answered at the end of a schedule. -/
def Answers (methods : World) (calls : List Call) (moves : Pool.Schedule Env) (t : Nat)
    (call : Call) (reply : Reply) : Prop :=
  calls[t]? = some call ∧
    ((running methods calls).run serverExec moves).threads[t]? = some (.pure reply)

/-- **How a workload was answered** whose request read the row of its trust domain at a move: the
verifier follows that row, and the answer that verifier. -/
structure Authenticated (methods : World) (calls : List Call) (moves : Pool.Schedule Env)
    (t p : Nat) (name authz : String) (reply : Reply) (m : Nat) (row? : Option K8sAuthMethod)
    (v? : Option Verifier) : Prop where
  read : TakesAt methods calls moves m t (.inl (.selectMethodByName name)) (.ok row?)
  found : (rowsAt methods calls moves m).find? (·.name == name) = row?
  follows : Follows methods calls moves p name m row? v?
  current : ∀ row, row? = some row → row.Clean →
    v? = tableVerifier row? ∨ Collision methods calls moves
  outcome : Outcome name authz (own t (runningUpto methods calls moves moves.length).history)
    (.ok v?) reply

theorem Authenticated.of_follows {t p m : Nat} {name authz : String} {reply : Reply}
    {row? : Option K8sAuthMethod} {v? : Option Verifier}
    (read : TakesAt methods calls moves m t (.inl (.selectMethodByName name)) (.ok row?))
    (follows : Follows methods calls moves p name m row? v?)
    (outcome : Outcome name authz (own t (runningUpto methods calls moves moves.length).history)
      (.ok v?) reply) :
    Authenticated methods calls moves t p name authz reply m row? v? where
  read := read
  found := by
    obtain ⟨e, h⟩ := read
    exact lookup_answer h.exec
  follows := follows
  current := by
    rintro row rfl hclean
    exact follows.current (stood_of_looked read) hclean
  outcome := outcome

/-- **What workloads are answered in a run**: a request that could read its row is answered as the
row says, by a new verifier or by one that was kept for the same fields, and only without a row may
a process use the verifier of its configuration file. -/
structure DomainsFollowed (methods : World) (calls : List Call) (moves : Pool.Schedule Env) :
    Prop where
  authenticated : ∀ t p header authz reply,
    Answers methods calls moves t (.authenticate p header authz) reply →
    (∃ m err, TakesAt methods calls moves m t (.inl (.selectMethodByName (authMethodOf header)))
      (.error err) ∧ reply = .refused lookupFailed) ∨
    ∃ m row? v?, Authenticated methods calls moves t p (authMethodOf header) authz reply m row? v?

/-- **Workloads are authenticated under the trust domains as the table has them**, in every run of
any number of processes, requests and changes. -/
theorem trust_domains_followed (methods : World) (calls : List Call) (moves : Pool.Schedule Env) :
    DomainsFollowed methods calls moves := by
  refine ⟨fun t p header authz reply h => ?_⟩
  have htraced : (runningUpto methods calls moves moves.length).Traced (fun t => Allowed calls[t]?)
      (fun t q reply => ∀ call, calls[t]? = some call → Ended call q reply) :=
    running_traced moves.length
  have hreply :
      (runningUpto methods calls moves moves.length).threads[t]? = some (.pure reply) := by
    rw [runningUpto, Pool.upto_length]
    exact h.2
  have hended := Prog.traced_pure.mp (htraced t _ hreply) _ h.1
  obtain ⟨r, hresolved, houtcome⟩ := hended.authenticated p header authz rfl
  have hasked {s : serverSig.Stmt} {x : serverSig.Ans s}
      (hmem : (⟨s, x⟩ : (s : serverSig.Stmt) × serverSig.Ans s) ∈
        own t (runningUpto methods calls moves moves.length).history) :
      ∃ m, TakesAt methods calls moves m t s x := by
    obtain ⟨m, -, h⟩ := asked_of_own (Nat.le_refl _) hmem
    exact ⟨m, h⟩
  cases hresolved with
  | failed read unfound =>
    obtain ⟨m, htakes⟩ := hasked read
    cases houtcome
    exact .inl ⟨m, _, htakes, rfl⟩
  | disabled read off settled =>
    obtain ⟨m, htakes⟩ := hasked read
    exact .inr ⟨m, _, _, .of_follows htakes (.disabled off) houtcome⟩
  | @enabled row v? read on verifier settled =>
    obtain ⟨m, htakes⟩ := hasked read
    refine .inr ⟨m, _, _, .of_follows htakes ?_ houtcome⟩
    cases verifier with
    | cached hgot =>
      obtain ⟨n, htakes'⟩ := hasked hgot
      exact follows_cached on htakes'
    | built => exact .enabled on (stood_of_looked htakes) rfl
  | missing read row notFound unfound =>
    obtain ⟨m, -, htakes⟩ := missed_of_own (Nat.le_refl _) read row notFound
    exact .inr ⟨m, _, _, .of_follows htakes .missing houtcome⟩
  | legacy row notFound unfound cached =>
    obtain ⟨n, e', hn, hgot, hread⟩ := Pool.after_origin (Nat.le_refl _) rfl cached
    obtain ⟨m, hmn, htakes⟩ := missed_of_own hn.le hread row notFound
    exact .inr ⟨m, _, _, .of_follows htakes (follows_file hmn ⟨e', hgot⟩) houtcome⟩

end Runs

end Goca.K8s
