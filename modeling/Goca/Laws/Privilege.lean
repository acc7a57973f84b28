import Mathlib.Data.List.Infix
import Goca.Auth.Step

/-!
# Tokens do not amplify

A token acts as its owner, and no request mints a token of more than its own role. The two bounds
are about different moments: the owner's role is read when the token is used, the minter's when it
mints. The first is in the text of `UserFromAPIToken`. The second is an invariant of the table of
tokens: the role of a row is bounded by every credential on the chain of requests it came from, and
no statement changes the role of a row.
-/

set_option autoImplicit false

namespace Goca.Auth

open Interleave (Act Pool Prog Trace)
open Interleave.Act
open Sql (Table)

/-! ## Roles and chains -/

/-- How much a role may do: there is the administrator's role, and every other. -/
def rank (role : String) : Nat := if role = roleAdmin then 1 else 0

section

variable [Bcrypt] [Go.Runtime]

/-- The request in thread `t` goes on at move `i` as `u`, on the strength of `c`. -/
def Acts (w : World) (calls : List Call) (moves : Pool.Schedule Env) (i t : Nat) (u : User)
    (c : Credential) : Prop := ∃ e, Asked w calls moves i t e (.host (.actAs u c)) ()

/-- At move `i` thread `t` brings token `id` into the table. -/
structure Mints (w : World) (calls : List Call) (moves : Pool.Schedule Env) (i t id : Nat) :
    Prop where
  asked : ∃ e r x, Asked w calls moves i t e (.db (.insertAPIToken r)) x
  absent : (servedUpto w calls moves i).world.apiTokens.get? id = none
  present : ((servedUpto w calls moves (i + 1)).world.apiTokens.get? id).isSome = true

/-- The users that the requests acted as, at the time, that a token came from: the one that minted
it, and where that was on the strength of a token, those that this one came from. -/
inductive MintedBy (w : World) (calls : List Call) (moves : Pool.Schedule Env) : Nat → User → Prop
  | minter {i j t id : Nat} {u : User} {c : Credential} (hi : Mints w calls moves i t id)
      (hj : j < i) (hu : Acts w calls moves j t u c) : MintedBy w calls moves id u
  | before {i j t id : Nat} {u u' : User} {r : APIToken} (hi : Mints w calls moves i t id)
      (hj : j < i) (hu : Acts w calls moves j t u (.token r)) (h : MintedBy w calls moves r.id u') :
      MintedBy w calls moves id u'

/-- What a request on the strength of token `r` rests on at move `i`: at an earlier move `j` of its
own the row was there, and not revoked; a clock that it read after that was not past the expiry, if
there is one; and at a move `k` of its own, after that, the owner `o` was there, not disabled, and
with at least the role that the request has. -/
structure AuthenticAt (w : World) (calls : List Call) (moves : Pool.Schedule Env) (i t : Nat)
    (u : User) (r : APIToken) (j k : Nat) (o : User) : Prop where
  order : j < k ∧ k < i
  own : ∃ e e', moves[j]? = some (t, e) ∧ moves[k]? = some (t, e')
  row : (servedUpto w calls moves j).world.apiTokens.get? r.id = some r
  unrevoked : r.revoked = false
  unexpired : ∀ exp, r.expiresAt = some exp → ∃ m e, j < m ∧ m < k ∧
    Asked w calls moves m t e (.host .now) e.now ∧ e.now ≤ exp
  owner : (servedUpto w calls moves k).world.users.get? r.userID = some o
  enabled : o.disabled = false
  actsAs : u.id = o.id
  capped : rank u.role ≤ rank o.role

/-- The request read what its credential rests on, and all of it was so. -/
def Authentic (w : World) (calls : List Call) (moves : Pool.Schedule Env) (i t : Nat) (u : User)
    (r : APIToken) : Prop := ∃ j k o, AuthenticAt w calls moves i t u r j k o

end

/-! ## What the requests ask -/

/-- The request goes on as somebody. -/
def Acting (q : Trace sig) (u : User) (c : Credential) : Prop :=
  (⟨.host (.actAs u c), ()⟩ : (s : Stmt) × s.Ans) ∈ q

/-- The request has not gone on as anybody yet. -/
def Unacted (q : Trace sig) : Prop := ∀ x ∈ q, ∀ u c, x.1 ≠ .host (.actAs u c)

/-- A token was read, then the clock if the token can expire, and then the token's owner. -/
def Looked (q : Trace sig) (r : APIToken) (o : User) : Prop :=
  ∃ q₁ hash q₂, q₁ ++ [⟨.db (.lookupAPIToken hash), .ok (some r)⟩] ++ q₂ ++
    [⟨.db (.selectUser r.userID), .ok (some o)⟩] <+: q ∧
    ∀ exp, r.expiresAt = some exp → ∃ t, t ≤ exp ∧
      q₂ = [(⟨.host .now, t⟩ : (s : Stmt) × s.Ans)]

/-- What going on on the strength of a token rests on: its owner is not disabled. -/
def TokenRead (q : Trace sig) (u : User) (r : APIToken) : Prop :=
  ∃ o, Looked q r o ∧ o.disabled = false ∧ u = effective r o

/-- What going on as somebody and minting a token rest on. -/
def TokenWarrant (q : Trace sig) : Stmt → Prop
  | .host (.actAs u (.token r)) => Unacted q ∧ TokenRead q u r
  | .host (.actAs _ _) => Unacted q
  | .db (.insertAPIToken r) => ∃ u c, Acting q u c ∧ rank r.role ≤ rank u.role
  | _ => True

section Walk

variable {ε α : Type} {q : Trace sig} {may : Trace sig → Stmt → Prop}

theorem unacted_snoc {s : Stmt} {x : s.Ans} (hq : Unacted q) (hs : ∀ u c, s ≠ .host (.actAs u c)) :
    Unacted (q ++ [⟨s, x⟩]) := by
  intro y hy
  rcases List.mem_append.mp hy with hy | hy
  · exact hq y hy
  · rw [List.mem_singleton.mp hy]
    exact hs

theorem tokenWarrant_of_within {l : List Effect} (h₁ : .actAs ∉ l) (h₂ : .insertAPIToken ∉ l)
    {s : Stmt} (hs : Within l s) : TokenWarrant q s := by
  unfold TokenWarrant
  split
  · exact absurd hs h₁
  · exact absurd hs h₁
  · exact absurd hs h₂
  · exact trivial

/-- What neither goes on as somebody nor mints is allowed at any time. -/
theorem quiet_traced {l : List Effect} (h₁ : .actAs ∉ l) (h₂ : .insertAPIToken ∉ l)
    {x : Handler ε α} (hx : x.Uses (Within l)) :
    x.Traced TokenWarrant (fun _ _ => True) q :=
  Prog.Uses.traced_of hx (fun _ _ _ hs => tokenWarrant_of_within h₁ h₂ hs) fun _ _ _ _ => trivial

/-- What the request does before it goes on as somebody. -/
theorem before_traced {l : List Effect} (h₁ : .actAs ∉ l) (h₂ : .insertAPIToken ∉ l)
    {x : Handler ε α} (hx : x.Uses (Within l)) (hq : Unacted q) :
    x.Traced TokenWarrant (fun q' _ => Unacted q') q := by
  refine Prog.Traced.mono (fun _ _ => id) (fun q' r (h : Unacted q') _ _ => h)
    (Prog.Uses.traced_keeps hx (fun _ _ _ hs => tokenWarrant_of_within h₁ h₂ hs) ?_ hq)
  intro q' s x hq' hs
  refine unacted_snoc hq' ?_
  rintro u c rfl
  exact h₁ hs

/-! ## Reading a token -/

/-- The clock is read, and nothing else, where a token can expire. -/
theorem expired_traced (expiresAt : Option Instant) (hq : Unacted q) :
    (expired expiresAt : Handler ε Bool).Traced TokenWarrant (fun q' past => Unacted q' ∧
      ∃ q₂, q' = q ++ q₂ ∧ (past = false → ∀ exp, expiresAt = some exp →
        ∃ t, t ≤ exp ∧ q₂ = [(⟨.host .now, t⟩ : (s : Stmt) × s.Ans)])) q := by
  cases expiresAt with
  | none => exact traced_pure ⟨hq, [], (List.append_nil q).symm, fun _ _ h => nomatch h⟩
  | some exp =>
    refine Traced.bind (m := fun q' t => q' = q ++ [⟨.host .now, t⟩])
      (host_traced (s := .now) trivial fun _ => rfl) ?_
    intro q₁ t _ hq₁
    refine traced_pure ⟨hq₁ ▸ unacted_snoc hq (fun _ _ h => nomatch h), _, hq₁, ?_⟩
    intro hpast exp' hexp
    cases hexp
    exact ⟨t, not_lt.mp (of_decide_eq_false hpast), rfl⟩

theorem Looked.extend {q' : Trace sig} {r : APIToken} {o : User} (h : Looked q r o)
    (hq : q <+: q') : Looked q' r o := by
  obtain ⟨q₁, hash, q₂, hprefix, hexp⟩ := h
  exact ⟨q₁, hash, q₂, hprefix.trans hq, hexp⟩

theorem lookupAPIToken_traced (hash : TokenHash) (hq : Unacted q) :
    (lookupAPIToken hash).Traced TokenWarrant
      (fun q' p => Unacted q' ∧ Looked q' p.1 p.2) q := by
  refine Traced.bind (m := fun q' r => q' = q ++ [⟨.db (.lookupAPIToken hash), .ok (some r)⟩])
    (row_traced (db_traced (s := .lookupAPIToken hash) trivial ?_)) ?_
  · intro a r hr
    rw [hr]
  intro q₁ r _ hq₁
  have hunacted₁ : Unacted q₁ := hq₁ ▸ unacted_snoc hq fun _ _ h => nomatch h
  refine (expired_traced r.expiresAt hunacted₁).bind ?_
  rintro q₂ past _ ⟨hunacted₂, clock, hq₂, hexp⟩
  refine Traced.bind (m := fun q' _ => q' = q₂ ∧ past = false)
    (traced_failIf fun hpast => ⟨rfl, Bool.eq_false_iff.mpr hpast⟩) ?_
  rintro q₃ _ _ ⟨rfl, hpast⟩
  refine Traced.bind (m := fun q' o => q' = q₃ ++ [⟨.db (.selectUser r.userID), .ok (some o)⟩])
    (row_traced (db_traced (s := .selectUser r.userID) trivial ?_)) ?_
  · intro a o ho
    rw [ho]
  intro q₄ o _ hq₄
  have hunacted₄ : Unacted q₄ := hq₄ ▸ unacted_snoc hunacted₂ fun _ _ h => nomatch h
  have hlooked : Looked q₄ r o := by
    refine ⟨q, hash, clock, ?_, hexp hpast⟩
    rw [hq₄, hq₂, hq₁]
  refine Traced.bind (m := fun q' _ => Unacted q')
    (host_traced (s := .now) trivial fun _ => unacted_snoc hunacted₄ fun _ _ h => nomatch h) ?_
  intro q₅ used hq₅ hunacted₅
  have htouch : (db (.touchAPIToken r.id used)).Uses (Within [.touchAPIToken]) :=
    db_uses (List.mem_singleton_self _)
  refine Traced.bind (before_traced (by decide) (by decide) htouch.attempt hunacted₅) ?_
  intro q₆ _ hq₆ hunacted₆
  exact traced_pure ⟨hunacted₆, hlooked.extend (hq₅.trans hq₆)⟩

theorem userFromAPIToken_traced (token : String) (hq : Unacted q) :
    (userFromAPIToken token).Traced TokenWarrant
      (fun q' p => Unacted q' ∧ TokenRead q' p.1 p.2) q := by
  refine Traced.bind (m := fun q' _ => q' = q) (traced_failIf fun _ => rfl) ?_
  rintro q₁ _ _ rfl
  refine (lookupAPIToken_traced _ hq).bind ?_
  rintro q₂ ⟨r, o⟩ _ ⟨hunacted, hlooked⟩
  refine Traced.bind (m := fun q' _ => q' = q₂ ∧ o.disabled = false)
    (traced_failIf fun h => ⟨rfl, Bool.eq_false_iff.mpr h⟩) ?_
  rintro q₃ _ _ ⟨rfl, henabled⟩
  exact traced_pure ⟨hunacted, o, hlooked, henabled, rfl⟩

/-! ## Who is calling -/

/-- What a caller's credential rests on. -/
def Caller (q : Trace sig) (u : User) : Credential → Prop
  | .token r => Unacted q ∧ TokenRead q u r
  | _ => Unacted q

theorem tokenWarrant_of_caller {u : User} {c : Credential} (h : Caller q u c) :
    TokenWarrant q (.host (.actAs u c)) := by
  cases c <;> exact h

theorem acting_snoc (q : Trace sig) (u : User) (c : Credential) :
    Acting (q ++ [⟨.host (.actAs u c), ()⟩]) u c :=
  List.mem_append_right q (List.mem_singleton_self _)

/-- Going on as a caller. -/
theorem actAs_traced {u : User} {c : Credential} (h : Caller q u c) :
    (host (.actAs u c) : Handler ε Unit).Traced TokenWarrant (fun q' _ => Acting q' u c) q :=
  host_traced (s := .actAs u c) (tokenWarrant_of_caller h) fun _ => acting_snoc q u c

theorem apiCaller_traced [Go.Runtime] (r : Request) (hq : Unacted q) :
    (apiCaller r).Traced TokenWarrant (fun q' p => Caller q' p.1 p.2) q := by
  refine traced_ite (fun _ => ?_) fun _ => ?_
  · refine (userFromAPIToken_traced _ hq).mapError.bind ?_
    rintro q₁ ⟨u, t⟩ _ h
    exact traced_pure h
  · refine (before_traced (l := []) (by simp) (by simp) (userFromRequest_uses r) hq).bind ?_
    intro q₁ found _ hunacted
    cases found with
    | none => exact traced_throw
    | some u =>
      refine Traced.bind (m := fun q' _ => q' = q₁) (traced_failIf fun _ => rfl) ?_
      rintro q₂ _ _ rfl
      exact traced_pure hunacted

/-- **An API request** goes on as its caller. -/
theorem apiAuth_traced [Go.Runtime] {handler : User → ApiHandler} (adminOnly : Bool) (r : Request)
    (hq : Unacted q) (hh : ∀ q' u c, Acting q' u c →
      (handler u).Traced TokenWarrant (fun _ _ => True) q') :
    (apiAuth handler adminOnly r).Traced TokenWarrant (fun _ _ => True) q := by
  refine (apiCaller_traced r hq).bind ?_
  rintro q₁ ⟨u, c⟩ _ hcaller
  refine Traced.bind (m := fun q' _ => q' = q₁) (traced_failIf fun _ => rfl) ?_
  rintro q₂ _ _ rfl
  refine (actAs_traced hcaller).bind ?_
  intro q₃ _ _ hacting
  exact (hh q₃ u c hacting).mapError

/-- **A page** goes on as the user of its session. -/
theorem requireUser_traced {next : User → Page} (r : Request) (hq : Unacted q)
    (hn : ∀ q' u c, Acting q' u c → (next u).Traced TokenWarrant (fun _ _ => True) q') :
    (requireUser next r).Traced TokenWarrant (fun _ _ => True) q := by
  refine (before_traced (l := []) (by simp) (by simp) (userFromRequest_uses r) hq).bind ?_
  intro q₁ found _ hunacted
  cases found with
  | none => exact traced_throw
  | some u =>
    refine Traced.bind (m := fun q' _ => q' = q₁) (traced_failIf fun _ => rfl) ?_
    rintro q₂ _ _ rfl
    refine Traced.bind (actAs_traced (c := .session) hunacted) ?_
    intro q₃ _ _ hacting
    exact hn q₃ u .session hacting

/-! ## Minting -/

/-- The role that is stored for a token, empty or not, is at most the one it was minted with. -/
theorem rank_nz_le (role : String) : rank (Store.nz role roleUser) ≤ rank role := by
  unfold Store.nz
  by_cases h : Go.trimSpace role = ""
  · rw [if_pos h]
    exact Nat.zero_le _
  · rw [if_neg h]

/-- A request on the strength of a token has at most the token's role. -/
theorem rank_effective_le (r : APIToken) (o : User) : rank (effective r o).role ≤ rank r.role := by
  unfold effective
  by_cases hrole : r.role = roleAdmin
  · rw [if_neg (not_not.mpr hrole), hrole]
    unfold rank
    split
    · exact le_refl _
    · exact Nat.zero_le _
  · rw [if_pos hrole]

/-- **Minting** on behalf of whom the request goes on as. -/
theorem issueAPIToken_traced {u : User} {c : Credential} (name role : String) (ttl : Duration)
    (h : Acting q u c) :
    (issueAPIToken u name role ttl).Traced TokenWarrant (fun _ _ => True) q := by
  refine Traced.bind (m := fun q' _ => Acting q' u c) (traced_failIf fun _ => h) ?_
  intro q₁ _ _ h₁
  refine Traced.bind (m := fun q' _ => Acting q' u c ∧ rank (mintedRole u role) ≤ rank u.role)
    (traced_failIf fun hcap => ⟨h₁, ?_⟩) ?_
  · unfold rank
    split
    · next hadmin =>
      rw [not_and, Bool.not_eq_false] at hcap
      have huser : u.role = roleAdmin := beq_iff_eq.mp (hcap hadmin)
      rw [if_pos huser]
    · exact Nat.zero_le _
  rintro q₂ _ _ ⟨h₂, hrank⟩
  -- What is left asks for randomness, the clock, and to store a token of the capped role.
  let P (s : Stmt) : Prop :=
    Within [] s ∨ ∃ r, s = .db (.insertAPIToken r) ∧ rank r.role ≤ rank u.role
  have hreads {ε α : Type} {x : Handler ε α} (hx : x.Uses (Within [])) : x.Uses P :=
    hx.mono fun _ => .inl
  have hcreate (t : APIToken) (ht : rank t.role ≤ rank u.role) : (createAPIToken t).Uses P := by
    refine (hreads now_uses).bind fun createdAt => ?_
    have hrole : rank (Store.nz t.role roleUser) ≤ rank u.role := (rank_nz_le t.role).trans ht
    refine (db_uses (.inr ⟨_, rfl, hrole⟩)).bind fun id => ?_
    exact (hreads (db_uses (s := .selectAPIToken id) trivial)).mapResult _
  have hrest : (do
      let answer ← host .randomToken
      let body ← Act.ofExcept answer
      let answer ← host .randomToken
      let pre ← Act.ofExcept answer
      let plaintext := tokenPrefix ++ pre ++ "_" ++ body
      let expiresAt ← expiry ttl
      let saved ← createAPIToken {
        userID := u.id, name, tokenPrefix := pre, tokenHash := hashToken plaintext
        role := mintedRole u role, expiresAt }
      pure (plaintext, saved) : Handler Go.Error (String × APIToken)).Uses P := by
    have hrandom : (host .randomToken : Handler Go.Error _).Uses P :=
      hreads (host_uses (s := .randomToken) trivial)
    refine hrandom.bind fun a => (uses_ofExcept a).bind fun body => ?_
    refine hrandom.bind fun b => (uses_ofExcept b).bind fun pre => ?_
    refine (hreads (expiry_uses ttl)).bind fun expiresAt => ?_
    exact (hcreate _ hrank).bind fun saved => uses_pure _
  refine Prog.Uses.traced_of hrest ?_ fun _ _ _ _ => trivial
  rintro q' s hq' (hs | ⟨r, rfl, hr⟩)
  · exact tokenWarrant_of_within (by simp) (by simp) hs
  · exact ⟨u, c, hq'.subset h₂, hr⟩

/-- What mints nothing, whoever it goes on as. -/
theorem after_traced {l : List Effect} {x : User → Handler ε α} (hx : ∀ u, (x u).Uses (Within l))
    (h₁ : .actAs ∉ l) (h₂ : .insertAPIToken ∉ l) (q' : Trace sig) (u : User) (c : Credential)
    (_ : Acting q' u c) : (x u).Traced TokenWarrant (fun _ _ => True) q' :=
  quiet_traced h₁ h₂ (hx u)

theorem apiTokenCreate_traced {u : User} {c : Credential} (body : Except String TokenRequest)
    (r : Request) (h : Acting q u c) :
    (apiTokenCreate body r u).Traced TokenWarrant (fun _ _ => True) q := by
  refine Traced.bind (m := fun q' _ => Acting q' u c) (traced_ofExcept fun _ _ => h) ?_
  intro q₁ body _ h₁
  refine Traced.bind (m := fun q' _ => Acting q' u c) (traced_failIf fun _ => h₁) ?_
  intro q₂ _ _ h₂
  refine (issueAPIToken_traced _ _ _ h₂).mapError.bind ?_
  rintro q₃ ⟨plaintext, rec⟩ _ _
  exact quiet_traced (l := []) (by simp) (by simp)
    ((audit_uses _ _ _ _ _).bind fun _ => uses_pure _)

theorem handleTokenCreate_traced {u : User} {c : Credential} (body : TokenRequest) (r : Request)
    (h : Acting q u c) : (handleTokenCreate body r u).Traced TokenWarrant (fun _ _ => True) q := by
  refine (issueAPIToken_traced _ _ _ h).mapError.bind ?_
  rintro q₁ ⟨plaintext, rec⟩ _ _
  exact quiet_traced (l := []) (by simp) (by simp)
    ((audit_uses _ _ _ _ _).bind fun _ => uses_pure _)

/-- The effects of a sign-in up to where the user is known. -/
abbrev signing : List Effect :=
  [.insertUser, .updateUser, .touchLogin, .checkPassword, .askDirectory, .insertAuthFailure,
    .recentAuthFailures, .clearAuthFailures]

theorem finishLogin_traced (s : Server) (u : User) (r : Request) (hq : Unacted q) :
    (s.finishLogin u r).Traced TokenWarrant (fun _ _ => True) q := by
  refine Traced.bind (actAs_traced (c := .login) hq) ?_
  intro q₁ _ _ _
  refine quiet_traced (l := [.insertSession]) (by simp) (by simp) ?_
  refine (createSession_uses (List.mem_singleton_self _) s.auth u).attempt.bind fun answer => ?_
  cases answer with
  | error err => exact uses_throw _
  | ok token => exact (audit_uses _ _ _ _ _).bind fun _ => uses_pure _

theorem apiAuthLogin_traced (s : Server) (body : Except String LoginRequest) (r : Request)
    (hq : Unacted q) : (s.apiAuthLogin body r).Traced TokenWarrant (fun _ _ => True) q := by
  refine Traced.bind (m := fun q' _ => Unacted q') (traced_ofExcept fun _ _ => hq) ?_
  intro q₁ body _ h₁
  refine Traced.bind (m := fun q' _ => Unacted q') (traced_failIf fun _ => h₁) ?_
  intro q₂ _ _ h₂
  refine Traced.bind (m := fun q' _ => Unacted q') (traced_failIf fun _ => h₂) ?_
  intro q₃ _ _ h₃
  refine (before_traced (l := signing) (by simp) (by simp)
    (loginThrottle_uses (by simp) _ _) h₃).bind ?_
  intro q₄ wait _ h₄
  refine traced_ite (fun _ => ?_) fun _ => ?_
  · exact quiet_traced (l := []) (by simp) (by simp)
      ((audit_uses _ _ _ _ _).bind fun _ => uses_throw _)
  refine Traced.bind (m := fun q' _ => Unacted q') (traced_ofExcept fun _ _ => h₄) ?_
  intro q₅ ttl _ h₅
  refine (before_traced (l := signing) (by simp) (by simp)
    (authenticate_uses (by simp) s.auth _ _).attempt h₅).bind ?_
  intro q₆ answer _ h₆
  cases answer with
  | error err =>
    refine quiet_traced (l := signing) (by simp) (by simp) ?_
    refine (loginFailed_uses (by simp) _ _).bind fun _ => ?_
    exact (audit_uses _ _ _ _ _).bind fun _ => uses_throw _
  | ok u =>
    refine (before_traced (l := signing) (by simp) (by simp)
      (loginSucceeded_uses (by simp) _ _) h₆).bind ?_
    intro q₇ _ _ h₇
    refine Traced.bind (actAs_traced (c := .login) h₇) ?_
    intro q₈ _ _ hacting
    refine (issueAPIToken_traced _ _ _ hacting).mapError.bind ?_
    rintro q₉ ⟨plaintext, rec⟩ _ _
    exact quiet_traced (l := []) (by simp) (by simp)
      ((audit_uses _ _ _ _ _).bind fun _ => (audit_uses _ _ _ _ _).bind fun _ => uses_pure _)

theorem handleLoginSubmit_traced (s : Server) (username password : String) (r : Request)
    (hq : Unacted q) :
    (s.handleLoginSubmit username password r).Traced TokenWarrant (fun _ _ => True) q := by
  refine Traced.bind (m := fun q' _ => Unacted q') (traced_failIf fun _ => hq) ?_
  intro q₁ _ _ h₁
  refine (before_traced (l := signing) (by simp) (by simp)
    (loginThrottle_uses (by simp) _ _) h₁).bind ?_
  intro q₂ wait _ h₂
  refine traced_ite (fun _ => ?_) fun _ => ?_
  · exact quiet_traced (l := []) (by simp) (by simp)
      ((audit_uses _ _ _ _ _).bind fun _ => uses_throw _)
  refine (before_traced (l := signing) (by simp) (by simp)
    (authenticate_uses (by simp) s.auth _ _).attempt h₂).bind ?_
  intro q₃ answer _ h₃
  cases answer with
  | error err =>
    refine quiet_traced (l := signing) (by simp) (by simp) ?_
    refine (loginFailed_uses (by simp) _ _).bind fun _ => ?_
    exact (audit_uses _ _ _ _ _).bind fun _ => uses_throw _
  | ok u =>
    refine (before_traced (l := signing) (by simp) (by simp)
      (loginSucceeded_uses (by simp) _ _) h₃).bind ?_
    intro q₄ _ _ h₄
    exact finishLogin_traced s u r h₄

theorem handleOIDCCallback_traced (s : Server) (c : Callback) (r : Request) (hq : Unacted q) :
    (s.handleOIDCCallback c r).Traced TokenWarrant (fun _ _ => True) q := by
  unfold Server.handleOIDCCallback
  refine Traced.bind (m := fun q' _ => Unacted q') (traced_failIf fun _ => hq) ?_
  intro q₁ _ _ h₁
  cases c.expected with
  | none => exact traced_throw
  | some expected =>
    refine Traced.bind (m := fun q' _ => Unacted q') (traced_failIf fun _ => h₁) ?_
    intro q₂ _ _ h₂
    refine Traced.bind (m := fun q' _ => Unacted q') (traced_failIf fun _ => h₂) ?_
    intro q₃ _ _ h₃
    refine Traced.bind (m := fun q' _ => Unacted q') (traced_failIf fun _ => h₃) ?_
    intro q₄ _ _ h₄
    refine (before_traced (l := signing) (by simp) (by simp)
      (host_uses (by simp [Within, Stmt.effect?])) h₄).bind ?_
    intro q₅ answer _ h₅
    cases answer with
    | error err =>
      exact quiet_traced (l := []) (by simp) (by simp)
        ((audit_uses _ _ _ _ _).bind fun _ => uses_throw _)
    | ok id =>
      refine (before_traced (l := signing) (by simp) (by simp)
        (syncDirectoryUser_uses (by simp) .sourceOIDC id).attempt h₅).bind ?_
      intro q₆ synced _ h₆
      cases synced with
      | error err => exact traced_throw
      | ok u => exact finishLogin_traced s u r h₆

/-! ## Everything else -/

theorem requireAdmin_traced {l : List Effect} {next : User → Page} (r : Request)
    (h₁ : .actAs ∉ l) (h₂ : .insertAPIToken ∉ l) (hn : ∀ u, (next u).Uses (Within l))
    (hq : Unacted q) :
    (requireAdmin next r).Traced TokenWarrant (fun _ _ => True) q :=
  requireUser_traced r hq
    (after_traced (fun u => (uses_failIf _ _).bind fun _ => hn u) h₁ h₂)

/-- The effects of a command beside minting. -/
abbrev administering : List Effect :=
  [.insertUser, .updateUser, .setUserRole, .setUserDisabled, .setUserPassword, .deleteUser,
    .deleteSession, .revokeAPIToken]

theorem command_traced (m : Manager) (actor : String) (command : Command) (hq : Unacted q) :
    (command.run m actor).Traced TokenWarrant (fun _ _ => True) q := by
  have hquiet {x : Handler Go.Error Unit} (hx : x.Uses (Within administering)) :
      x.Traced TokenWarrant (fun _ _ => True) q := quiet_traced (by simp) (by simp) hx
  cases command with
  | userAdd body =>
    refine hquiet ((createLocalUser_uses (by simp) _ _ _ _ _).bind fun _ => ?_)
    exact audit_uses _ _ _ _ _
  | userRole username role =>
    refine hquiet ((getUserByName_uses _).bind fun _ => (uses_failIf _ _).bind fun _ => ?_)
    exact Uses.bind (db_uses (by simp [Within, Stmt.effect?])) fun _ => audit_uses _ _ _ _ _
  | userPasswd username password =>
    refine hquiet ((getUserByName_uses _).bind fun _ => ?_)
    exact (setPassword_uses (by simp) m _ _).bind fun _ => audit_uses _ _ _ _ _
  | userDisable username enable =>
    refine hquiet ((getUserByName_uses _).bind fun _ => ?_)
    refine Uses.bind (db_uses (by simp [Within, Stmt.effect?])) fun _ => ?_
    exact (endSessions_uses (by simp) _ _).bind fun _ => audit_uses _ _ _ _ _
  | userDelete username =>
    refine hquiet ((getUserByName_uses _).bind fun _ => ?_)
    exact (deleteUser_uses (by simp) _).bind fun _ => audit_uses _ _ _ _ _
  | tokenCreate owner name role n =>
    refine (before_traced (l := []) (by simp) (by simp)
      ((getUserByName_uses _).mapError _) hq).bind ?_
    intro q₁ u _ h₁
    refine Traced.bind (m := fun q' _ => Unacted q') (traced_failIf fun _ => h₁) ?_
    intro q₂ _ _ h₂
    refine Traced.bind (actAs_traced (c := .operator) h₂) ?_
    intro q₃ _ _ hacting
    refine (issueAPIToken_traced _ _ _ hacting).bind ?_
    rintro q₄ ⟨plaintext, rec⟩ _ _
    exact quiet_traced (l := []) (by simp) (by simp) (audit_uses _ _ _ _ _)
  | tokenRevoke id =>
    refine hquiet ?_
    simp only [Command.run]
    cases pathNumber id with
    | none => exact uses_throw _
    | some n =>
      exact (revokeAPIToken_uses (by simp) n).bind fun _ => audit_uses _ _ _ _ _

/-- **Every call** goes on as at most one user, and mints on behalf of that one. -/
theorem serve_traced [Go.Runtime] (c : Call) :
    c.serve.Traced TokenWarrant (fun _ _ => True) [] := by
  have hq : Unacted ([] : Trace sig) := fun _ h => nomatch h
  obtain ⟨s, r, op⟩ := c
  cases op with
  | api adminOnly =>
    exact answering_traced (apiAuth_traced adminOnly r hq
      (after_traced (l := []) (fun _ => uses_pure _) (by simp) (by simp)))
  | page =>
    exact answering_traced (requireUser_traced r hq
      (after_traced (l := []) (fun _ => uses_pure _) (by simp) (by simp)))
  | apiTokenList =>
    exact answering_traced (apiAuth_traced false r hq
      (after_traced (l := []) apiTokenList_uses (by simp) (by simp)))
  | apiTokenCreate body =>
    exact answering_traced (apiAuth_traced false r hq
      fun _ _ _ h => apiTokenCreate_traced body r h)
  | apiTokenRevoke path =>
    exact answering_traced (apiAuth_traced false r hq
      (after_traced (l := administering) (apiTokenRevoke_uses (by simp) path) (by simp)
        (by simp)))
  | apiUserList =>
    exact answering_traced (apiAuth_traced true r hq
      (after_traced (l := []) apiUserList_uses (by simp) (by simp)))
  | apiUserCreate body =>
    exact answering_traced (apiAuth_traced true r hq
      (after_traced (l := administering) (apiUserCreate_uses (by simp) body r) (by simp)
        (by simp)))
  | apiUserPatch ref body =>
    exact answering_traced (apiAuth_traced true r hq
      (after_traced (l := administering) (apiUserPatch_uses (by simp) s ref body r) (by simp)
        (by simp)))
  | apiUserDelete ref =>
    exact answering_traced (apiAuth_traced true r hq
      (after_traced (l := administering) (apiUserDelete_uses (by simp) ref r) (by simp)
        (by simp)))
  | apiAuthLogin body => exact answering_traced (apiAuthLogin_traced s body r hq).mapError
  | handleLoginSubmit username password =>
    exact answering_traced (handleLoginSubmit_traced s username password r hq)
  | handleOIDCCallback c => exact answering_traced (handleOIDCCallback_traced s c r hq)
  | handleLogout =>
    refine answering_traced (quiet_traced (l := administering) (by simp) (by simp) ?_)
    exact handleLogout_uses (by simp) r
  | handleTokenCreate body =>
    exact answering_traced (requireUser_traced r hq
      fun _ _ _ h => handleTokenCreate_traced body r h)
  | handleTokenRevoke path =>
    exact answering_traced (requireUser_traced r hq
      (after_traced (l := administering) (handleTokenRevoke_uses (by simp) path r) (by simp)
        (by simp)))
  | handleUserCreate body =>
    exact answering_traced (requireAdmin_traced (l := administering) r (by simp) (by simp)
      (handleUserCreate_uses (by simp) body r) hq)
  | handleUserRole path role =>
    exact answering_traced (requireAdmin_traced (l := administering) r (by simp) (by simp)
      (handleUserRole_uses (by simp) path role r) hq)
  | handleUserDisable path disabled =>
    exact answering_traced (requireAdmin_traced (l := administering) r (by simp) (by simp)
      (handleUserDisable_uses (by simp) path disabled r) hq)
  | handleUserDelete path =>
    exact answering_traced (requireAdmin_traced (l := administering) r (by simp) (by simp)
      (handleUserDelete_uses (by simp) path r) hq)
  | handleChangePassword current next =>
    exact answering_traced (requireUser_traced r hq
      (after_traced (l := [.checkPassword, .setUserPassword])
        (handleChangePassword_uses (by simp) s current next r) (by simp) (by simp)))
  | start la =>
    refine ending_traced (quiet_traced (l := administering) (by simp) (by simp) ?_)
    exact start_uses (by simp) la
  | purgeExpired =>
    refine ending_traced (quiet_traced (l := [.deleteSession, .purgeAuthFailures]) (by simp)
      (by simp) ?_)
    exact purgeExpired_uses (by simp)
  | cli la actor command =>
    refine ending_traced ((before_traced (l := administering) (by simp) (by simp)
      (ensureLocalAdmin_uses (by simp) la) hq).bind ?_)
    intro q₁ _ _ h₁
    exact command_traced s.auth actor command h₁

end Walk

/-! ## What the statements do to the tokens -/

/-- What one statement does to the row of a token: nothing, it marks or deletes it, or it brings it
in, under the next identifier. -/
inductive TokenStep (s : Stmt) (seq id : Nat) : Option APIToken → Option APIToken → Prop
  | same (r : Option APIToken) : TokenStep s seq id r r
  | marked {r r' : APIToken} (role : r'.role = r.role) : TokenStep s seq id (some r) (some r')
  | gone (r : APIToken) : TokenStep s seq id (some r) none
  | minted {t : APIToken} (stmt : s = .db (.insertAPIToken t)) (next : id = seq + 1) :
    TokenStep s seq id none (some { t with id, lastUsedAt := none, revoked := false })

theorem token_updateTokens (s : Stmt) (w : World) (i id : Nat) (f : APIToken → APIToken)
    (hf : ∀ t, (f t).id = t.id) (hrole : ∀ t, (f t).role = t.role) :
    TokenStep s w.apiTokens.seq id (w.apiTokens.get? id)
      ((w.updateTokens i f hf).apiTokens.get? id) :=
  Table.update_induction (P := TokenStep s w.apiTokens.seq id) w.apiTokens (·.id == i) f hf id
    (fun r => .same r) fun r _ _ => .marked (hrole r)

/-- What a statement leaves of the row of a token, if it takes effect. -/
theorem token_done (pick : Nat) (w : World) (s : DbStmt) (id : Nat) :
    TokenStep (.db s) w.apiTokens.seq id (w.apiTokens.get? id)
      ((w.exec pick s).2.apiTokens.get? id) := by
  cases s with
  | insertAPIToken t =>
    simp only [World.exec]
    split
    · exact .same _
    · rw [Table.get?_insert]
      by_cases hid : id = w.apiTokens.seq + 1
      · rw [if_pos hid, Table.get?_eq_none_of_lt (by omega)]
        exact .minted rfl hid
      · rw [if_neg hid]
        exact .same _
  | deleteUser i =>
    simp only [World.exec]
    cases hr : w.apiTokens.get? id with
    | none =>
      cases hd : (w.apiTokens.delete (·.userID == i)).get? id with
      | none => exact .same _
      | some r =>
        rw [(Table.get?_delete.mp hd).1] at hr
        cases hr
    | some r =>
      cases hd : (w.apiTokens.delete (·.userID == i)).get? id with
      | none => exact .gone r
      | some r' =>
        rw [(Table.get?_delete.mp hd).1] at hr
        cases hr
        exact .same _
  | touchAPIToken i time => exact token_updateTokens _ w i id _ _ fun _ => rfl
  | revokeAPIToken i => exact token_updateTokens _ w i id _ _ fun _ => rfl
  | insertUser u =>
    simp only [World.exec]
    split <;> exact .same _
  | insertSession t =>
    simp only [World.exec]
    split <;> exact .same _
  | _ => exact .same _

/-- No token loses its identifier to another. -/
theorem seq_done (pick : Nat) (w : World) (s : DbStmt) :
    w.apiTokens.seq ≤ (w.exec pick s).2.apiTokens.seq := by
  cases s with
  | insertAPIToken t =>
    simp only [World.exec]
    split
    · exact le_refl _
    · exact Nat.le_succ _
  | insertUser u =>
    simp only [World.exec]
    split <;> exact le_refl _
  | insertSession t =>
    simp only [World.exec]
    split <;> exact le_refl _
  | _ => exact le_refl _

section World

variable [Bcrypt] {e : Env} {w w' : World}

theorem token_step {s : Stmt} {x : s.Ans} (hx : exec e w s = some (x, w')) (id : Nat) :
    TokenStep s w.apiTokens.seq id (w.apiTokens.get? id) (w'.apiTokens.get? id) := by
  cases s with
  | host s =>
    rw [(exec_host hx).2]
    exact .same _
  | db s =>
    rw [(exec_db hx).2]
    rcases e.fault.apply_cases w (w.exec e.pick s) with ⟨_, _, hw⟩ | ⟨_, hw, _⟩
    · rw [hw]
      exact .same _
    · rw [hw]
      exact token_done e.pick w s id

theorem seq_step {s : Stmt} {x : s.Ans} (hx : exec e w s = some (x, w')) :
    w.apiTokens.seq ≤ w'.apiTokens.seq := by
  cases s with
  | host s => rw [(exec_host hx).2]
  | db s =>
    rw [(exec_db hx).2]
    rcases e.fault.apply_cases w (w.exec e.pick s) with ⟨_, _, hw⟩ | ⟨_, hw, _⟩
    · rw [hw]
    · rw [hw]
      exact seq_done e.pick w s

/-- A token that is found is in the table, and not revoked. -/
theorem found_token {hash : TokenHash} {r : APIToken}
    (hx : exec e w (.db (.lookupAPIToken hash)) = some (.ok (some r), w')) :
    w.apiTokens.get? r.id = some r ∧ r.revoked = false := by
  have hfind := Except.ok.inj (exec_db_ok hx)
  have hkeep := List.find?_some hfind
  rw [Bool.and_eq_true, Bool.not_eq_true'] at hkeep
  exact ⟨Table.get?_of_mem (List.mem_of_find?_eq_some hfind), hkeep.2⟩

end World

/-! ## Runs -/

section Runs

variable [Bcrypt] [Go.Runtime] {w : World} {calls : List Call} {moves : Pool.Schedule Env}

theorem served_traced (n : Nat) :
    (servedUpto w calls moves n).Traced (fun _ => TokenWarrant) fun _ _ _ => True := by
  refine (Pool.run_traced Pool.lawful_init (Pool.traced_init ?_) (moves.take n)).2
  intro t p hp
  obtain ⟨c, _, rfl⟩ := List.mem_map.mp (List.mem_of_getElem? hp)
  exact serve_traced c

theorem acts_of_next {i t : Nat} {e : Env} {u : User} {c : Credential}
    (move : moves[i]? = some (t, e))
    (next : (servedUpto w calls moves i).next? t = some (.host (.actAs u c))) :
    Acts w calls moves i t u c := by
  obtain ⟨x, hx⟩ := asked_of_next move next
  exact ⟨e, hx⟩

/-- What is asked is asked on a warrant. -/
theorem warrant_of_asked {i t : Nat} {e : Env} {s : Stmt} {x : s.Ans}
    (h : Asked w calls moves i t e s x) :
    TokenWarrant (Interleave.own t (servedUpto w calls moves i).history) s :=
  Pool.next_allowed (served_traced i) h.next

/-- No request goes on as somebody a second time. -/
theorem acts_unacted {i t : Nat} {u : User} {c : Credential} (h : Acts w calls moves i t u c) :
    Unacted (Interleave.own t (servedUpto w calls moves i).history) := by
  obtain ⟨e, h⟩ := h
  have hw := warrant_of_asked h
  cases c with
  | token r => exact hw.1
  | _ => exact hw

/-- **A request acts as one user only.** -/
theorem acts_unique {i j t : Nat} {u u' : User} {c c' : Credential}
    (h : Acts w calls moves i t u c) (h' : Acts w calls moves j t u' c') : u = u' ∧ c = c' := by
  obtain ⟨e, hi⟩ := h
  obtain ⟨e', hj⟩ := h'
  rcases lt_trichotomy i j with hij | rfl | hij
  · exact absurd rfl (acts_unacted ⟨e', hj⟩ _ (hi.mem_own hij) u c)
  · have hs := (hi.stmt_unique hj).2
    cases hs
    exact ⟨rfl, rfl⟩
  · exact absurd rfl (acts_unacted ⟨e, hi⟩ _ (hj.mem_own hij) u' c')

/-- The request acted before it was acting. -/
theorem acts_of_acting {n t : Nat} (hn : n ≤ moves.length) {u : User} {c : Credential}
    (h : Acting (Interleave.own t (servedUpto w calls moves n).history) u c) :
    ∃ j, j < n ∧ Acts w calls moves j t u c := by
  obtain ⟨j, e, hj, hasked⟩ := Pool.history_origin hn rfl (Interleave.mem_own.mp h)
  exact ⟨j, hj, e, hasked⟩

theorem seq_upto {i j : Nat} (hij : i ≤ j) (hj : j ≤ moves.length) :
    (servedUpto w calls moves i).world.apiTokens.seq ≤
      (servedUpto w calls moves j).world.apiTokens.seq := by
  induction hij with
  | refl => exact le_refl _
  | @step j _ ih =>
    refine (ih (by omega)).trans ?_
    obtain hs | ⟨s, x, hasked, _⟩ := Pool.upto_asked exec (serving w calls) hj
    · exact le_of_eq (congrArg (fun σ => σ.world.apiTokens.seq) hs.symm)
    · exact seq_step hasked.exec

/-- The identifier that a mint gives out. -/
theorem mints_seq {i t id : Nat} (h : Mints w calls moves i t id) :
    i < moves.length ∧ id = (servedUpto w calls moves i).world.apiTokens.seq + 1 := by
  obtain ⟨⟨e, r, x, hasked⟩, habsent, hpresent⟩ := h
  refine ⟨(List.getElem?_eq_some_iff.mp hasked.move).1, ?_⟩
  have hstep := token_step hasked.exec id
  obtain ⟨row, hrow⟩ := Option.isSome_iff_exists.mp hpresent
  have habsent' : (Pool.upto exec (serving w calls) moves i).world.apiTokens.get? id = none :=
    habsent
  have hrow' : (Pool.upto exec (serving w calls) moves (i + 1)).world.apiTokens.get? id =
      some row := hrow
  rw [habsent', hrow'] at hstep
  cases hstep with
  | minted _ hnext => exact hnext

theorem seq_of_present {n id : Nat}
    (h : ((servedUpto w calls moves n).world.apiTokens.get? id).isSome = true) :
    id ≤ (servedUpto w calls moves n).world.apiTokens.seq := by
  by_contra hlt
  rw [Table.get?_eq_none_of_lt (by omega)] at h
  cases h

/-- **A token is minted once.** -/
theorem mints_unique {i j t t' id : Nat} (h : Mints w calls moves i t id)
    (h' : Mints w calls moves j t' id) : i = j ∧ t = t' := by
  have hlater {i j t t' : Nat} (h : Mints w calls moves i t id) (h' : Mints w calls moves j t' id) :
      ¬ i < j := by
    intro hij
    have hseq := seq_of_present h.present
    obtain ⟨hj, hid⟩ := mints_seq h'
    have hmono : (servedUpto w calls moves (i + 1)).world.apiTokens.seq ≤
        (servedUpto w calls moves j).world.apiTokens.seq := seq_upto hij (by omega)
    omega
  obtain rfl : i = j := by
    have := hlater h h'
    have := hlater h' h
    omega
  obtain ⟨⟨e, r, x, hi⟩, _⟩ := h
  obtain ⟨⟨e', r', x', hj⟩, _⟩ := h'
  exact ⟨rfl, (hi.stmt_unique hj).1⟩

/-! ## Reading a token, in a run -/

/-- What was looked at was there when it was read. -/
theorem authentic_of_read {i t : Nat} {u : User} {r : APIToken} (hi : i ≤ moves.length)
    (h : TokenRead (Interleave.own t (servedUpto w calls moves i).history) u r) :
    Authentic w calls moves i t u r := by
  obtain ⟨o, ⟨q₁, hash, q₂, hprefix, hexp⟩, henabled, rfl⟩ := h
  obtain ⟨k, e', hk, hselect, hown⟩ := Pool.own_origin hi rfl hprefix
  have hlen : k < moves.length := (List.getElem?_eq_some_iff.mp hselect.move).1
  have hlookup {n : Nat} (hn : n ≤ moves.length)
      (hq : q₁ ++ [⟨.db (.lookupAPIToken hash), .ok (some r)⟩] <+:
        Interleave.own t (servedUpto w calls moves n).history) :
      ∃ j e, j < n ∧ Asked w calls moves j t e (.db (.lookupAPIToken hash)) (.ok (some r)) := by
    obtain ⟨j, e, hj, hasked, _⟩ := Pool.own_origin hn rfl hq
    exact ⟨j, e, hj, hasked⟩
  have hcap : rank (effective r o).role ≤ rank o.role := by
    unfold effective
    by_cases hrole : r.role = roleAdmin
    · rw [if_neg (not_not.mpr hrole)]
    · rw [if_pos hrole]
      unfold rank
      rw [if_neg hrole]
      exact Nat.zero_le _
  have hid : (effective r o).id = o.id := by
    unfold effective
    split <;> rfl
  cases hexpires : r.expiresAt with
  | none =>
    have hpre : q₁ ++ [⟨.db (.lookupAPIToken hash), .ok (some r)⟩] <+:
        Interleave.own t (servedUpto w calls moves k).history := by
      rw [hown]
      exact List.prefix_append _ _
    obtain ⟨j, e, hj, hasked⟩ := hlookup (by omega) hpre
    obtain ⟨hrow, hrevoked⟩ := found_token hasked.exec
    refine ⟨j, k, o, ⟨hj, hk⟩, ⟨e, e', hasked.move, hselect.move⟩, hrow, hrevoked, ?_,
      found_user hselect.exec, henabled, hid, hcap⟩
    intro exp hexp'
    rw [hexpires] at hexp'
    cases hexp'
  | some exp =>
    obtain ⟨now, hnow, rfl⟩ := hexp exp hexpires
    have hclock : (q₁ ++ [⟨.db (.lookupAPIToken hash), .ok (some r)⟩]) ++ [⟨.host .now, now⟩] <+:
        Interleave.own t (servedUpto w calls moves k).history := by
      rw [hown]
    obtain ⟨m, em, hm, hread, hbefore⟩ := Pool.own_origin (by omega) rfl hclock
    obtain ⟨j, e, hj, hasked⟩ := hlookup (n := m) (by omega) (by rw [← hbefore])
    obtain ⟨hrow, hrevoked⟩ := found_token hasked.exec
    obtain rfl : now = em.now := (exec_host hread.exec).1
    refine ⟨j, k, o, ⟨by omega, hk⟩, ⟨e, e', hasked.move, hselect.move⟩, hrow, hrevoked, ?_,
      found_user hselect.exec, henabled, hid, hcap⟩
    intro exp' hexp'
    rw [hexpires] at hexp'
    cases hexp'
    exact ⟨m, em, hj, hm, hread, hnow⟩

/-! ## The chain -/

/-- What a request on the strength of a token rests on. -/
theorem tokenRead_of_acts {i t : Nat} {u : User} {r : APIToken}
    (h : Acts w calls moves i t u (.token r)) :
    i < moves.length ∧
      TokenRead (Interleave.own t (servedUpto w calls moves i).history) u r := by
  obtain ⟨e, hasked⟩ := h
  exact ⟨(List.getElem?_eq_some_iff.mp hasked.move).1, (warrant_of_asked hasked).2⟩

/-- The row that a move brings in has at most the role of each request it came from, if that holds
of every row that was there before. -/
theorem minted_bounded {n t id : Nat} {e : Env} {r : APIToken} {x : Except Go.Error Nat}
    (hasked : Asked w calls moves n t e (.db (.insertAPIToken r)) x)
    (hmint : Mints w calls moves n t id)
    (ih : ∀ m < n, ∀ id row, (servedUpto w calls moves m).world.apiTokens.get? id = some row →
      ∀ u, MintedBy w calls moves id u → rank row.role ≤ rank u.role)
    {u : User} (hu : MintedBy w calls moves id u) : rank r.role ≤ rank u.role := by
  have hn : n < moves.length := (List.getElem?_eq_some_iff.mp hasked.move).1
  obtain ⟨u₁, c₁, hacting, hrank⟩ := warrant_of_asked hasked
  obtain ⟨j₁, hj₁, hacts₁⟩ := acts_of_acting (by omega) hacting
  cases hu with
  | minter hi hj hacts =>
    obtain ⟨rfl, rfl⟩ := mints_unique hmint hi
    obtain ⟨rfl, _⟩ := acts_unique hacts₁ hacts
    exact hrank
  | before hi hj hacts hbefore =>
    obtain ⟨rfl, rfl⟩ := mints_unique hmint hi
    obtain ⟨rfl, _⟩ := acts_unique hacts₁ hacts
    obtain ⟨hlen, hread⟩ := tokenRead_of_acts hacts
    obtain ⟨m, k, o, hauth⟩ := authentic_of_read (by omega) hread
    obtain ⟨o', _, _, rfl⟩ := hread
    have hmk := hauth.order
    calc rank r.role
      _ ≤ rank (effective _ o').role := hrank
      _ ≤ rank _ := rank_effective_le _ o'
      _ ≤ rank u.role := ih m (by omega) _ _ hauth.row u hbefore

/-- **The invariant of the table of tokens**: a row has at most the role of each request that it
came from. -/
theorem token_bounded {n : Nat} (hn : n ≤ moves.length) (id : Nat) (row : APIToken)
    (hrow : (servedUpto w calls moves n).world.apiTokens.get? id = some row) (u : User)
    (hu : MintedBy w calls moves id u) : rank row.role ≤ rank u.role := by
  induction n using Nat.strong_induction_on generalizing id row u with
  | _ n ih =>
    cases n with
    | zero =>
      -- A token that is there at the start was not minted in the run.
      have hmints : ∃ i t, Mints w calls moves i t id := by
        cases hu with
        | minter hi _ _ => exact ⟨_, _, hi⟩
        | before hi _ _ _ => exact ⟨_, _, hi⟩
      obtain ⟨i, t, hmint⟩ := hmints
      obtain ⟨hi, hid⟩ := mints_seq hmint
      have hseq : id ≤ (servedUpto w calls moves 0).world.apiTokens.seq :=
        seq_of_present (Option.isSome_iff_exists.mpr ⟨row, hrow⟩)
      have hmono : (servedUpto w calls moves 0).world.apiTokens.seq ≤
          (servedUpto w calls moves i).world.apiTokens.seq := seq_upto (Nat.zero_le i) (by omega)
      omega
    | succ n =>
      have hbefore (m : Nat) (hm : m < n) (id : Nat) (row : APIToken)
          (h : (servedUpto w calls moves m).world.apiTokens.get? id = some row) (u : User)
          (hu : MintedBy w calls moves id u) : rank row.role ≤ rank u.role :=
        ih m (by omega) (by omega) id row h u hu
      obtain hs | ⟨s, x, hasked, _⟩ := Pool.upto_asked exec (serving w calls) hn
      · have hsame : servedUpto w calls moves (n + 1) = servedUpto w calls moves n := hs
        rw [hsame] at hrow
        exact ih n (by omega) (by omega) id row hrow u hu
      · have hstep : TokenStep s (servedUpto w calls moves n).world.apiTokens.seq id
            ((servedUpto w calls moves n).world.apiTokens.get? id)
            ((servedUpto w calls moves (n + 1)).world.apiTokens.get? id) :=
          token_step hasked.exec id
        rw [hrow] at hstep
        generalize hold : (servedUpto w calls moves n).world.apiTokens.get? id = old at hstep
        cases hstep with
        | same _ => exact ih n (by omega) (by omega) id row hold u hu
        | marked hrole =>
          rw [hrole]
          exact ih n (by omega) (by omega) id _ hold u hu
        | minted hstmt hnext =>
          subst hstmt
          have hmint : Mints w calls moves n moves[n].1 id :=
            ⟨⟨_, _, _, hasked⟩, hold, by rw [hrow]; rfl⟩
          exact minted_bounded hasked hmint hbefore hu

/-- **Privilege never amplifies**: a request on the strength of a token read the row of the token,
not revoked and not expired, and after that the token's owner, not disabled; and it has at most the
role the owner had there, and at most the role of each request that the token came from, when that
one minted. -/
theorem tokens_never_amplify {i t : Nat} {u : User} {r : APIToken}
    (h : Acts w calls moves i t u (.token r)) :
    Authentic w calls moves i t u r ∧
      ∀ u', MintedBy w calls moves r.id u' → rank u.role ≤ rank u'.role := by
  obtain ⟨hi, hread⟩ := tokenRead_of_acts h
  have hauth := authentic_of_read (by omega) hread
  refine ⟨hauth, ?_⟩
  intro u' hu'
  obtain ⟨j, k, o, hauth⟩ := hauth
  obtain ⟨o', _, _, rfl⟩ := hread
  have hjk := hauth.order
  exact (rank_effective_le r o').trans (token_bounded (by omega) r.id r hauth.row u' hu')

end Runs

/-! ## A token of a session -/

/-- An administrator. -/
def rootUser : User where
  id := 1
  username := "root"
  source := .sourceLocal
  role := roleAdmin

/-- An administrator who has signed in. -/
def signedIn : World := { World.empty with
  users := Table.empty.insert (fun id => { rootUser with id }) fun _ => rfl
  sessions := Table.empty.insert
    (fun id => { id, userID := 1, tokenHash := hashToken "s", expiresAt := 10 }) fun _ => rfl }

/-- The administrator mints a token of the user's role, and then a request comes with it. -/
def mintThenUse : List Call :=
  [⟨portal, { cookie := some "s", csrfCookie := some "c", csrfSent := "c" },
      .apiTokenCreate (.ok ⟨"ci", roleUser, 1⟩)⟩,
    ⟨portal, { authorization := "Bearer goca_t_t" }, .api false⟩]

/-- One request after the other. -/
def oneByOne : Pool.Schedule Env :=
  (List.replicate 10 0 ++ List.replicate 6 1).map fun t => (t, atOnce)

/-- The row of that token. -/
def userToken : APIToken where
  id := 1
  userID := 1
  name := "ci"
  tokenPrefix := "t"
  tokenHash := hashToken "goca_t_t"
  role := roleUser
  expiresAt := some (24 * 3600 * 1000000000)

/-- The request with the token is bounded by the session that the token came from. -/
theorem userToken_bounded :
    @Authentic saltedBcrypt Go.asciiRuntime signedIn mintThenUse oneByOne 15 1
        (effective userToken rootUser) userToken ∧
      @MintedBy saltedBcrypt Go.asciiRuntime signedIn mintThenUse oneByOne 1 rootUser ∧
      rank (effective userToken rootUser).role ≤ rank rootUser.role := by
  let _ := Go.asciiRuntime
  let _ := saltedBcrypt
  have hacts : Acts signedIn mintThenUse oneByOne 15 1 (effective userToken rootUser)
      (.token userToken) := acts_of_next (e := atOnce) rfl (by decide +kernel)
  have hminted : MintedBy signedIn mintThenUse oneByOne 1 rootUser := by
    refine .minter (i := 7) (j := 2) (t := 0) (c := .session) ⟨?_, ?_, ?_⟩ (by decide) ?_
    · have hstored : ∃ x, Asked signedIn mintThenUse oneByOne 7 0 atOnce
          (.db (.insertAPIToken { userToken with id := 0 })) x :=
        asked_of_next rfl (by decide +kernel)
      obtain ⟨x, hx⟩ := hstored
      exact ⟨_, _, _, hx⟩
    · decide +kernel
    · decide +kernel
    · exact acts_of_next (e := atOnce) rfl (by decide +kernel)
  obtain ⟨hauth, hbound⟩ := tokens_never_amplify hacts
  exact ⟨hauth, hminted, hbound rootUser hminted⟩

end Goca.Auth
