import Goca.Ldap.Names
import Goca.Lib.Alone

/-!
# Who becomes an administrator through LDAP

`authenticate_mapped` says of every sign-in, whatever the directory answers, where the groups of the
identity that it returns come from, that the directory accepted the password for its DN, and that it
is an administrator exactly where an entry of `admin_groups` agrees with one of these groups or with
that DN. `Ldap.Names` says when names agree: full DNs also where only their common names are the same.
-/

set_option autoImplicit false

namespace Goca.Ldap

open Interleave
open Interleave.Act

section SignIn

variable [Library]

/-! ## What the directory said of a user -/

/-- The DN that a user signs in with, and the groups that its entry lists: the template with the name
in it, or the only entry that the filter matched. -/
inductive Client.Found (c : Client) (username : String) (q : Trace sig) :
    String → List String → Prop
  | template (h : Go.trimSpace c.cfg.userDNTemplate ≠ "") :
      c.Found username q
        (Go.replaceAll (Go.trimSpace c.cfg.userDNTemplate) "%s" (Library.escapeDN username)) []
  | entry {e : Entry} (h : Go.trimSpace c.cfg.userDNTemplate = "")
      (hsearch : ⟨.search (c.userRequest username), .ok [e]⟩ ∈ q) :
      c.Found username q e.dn (e.getAttributeValues "memberOf")

/-- The groups of an identity: those of the group search, or those it had where no group search is
configured or the search failed. -/
inductive Client.Grouped (c : Client) (q : Trace sig) (id : Identity) : List String → Prop
  | searched {entries : List Entry}
      (h : ⟨.search (c.groupRequest id.dn id.username), .ok entries⟩ ∈ q) :
      c.Grouped q id (entries.flatMap c.groupValues)
  | failed {e : Go.Error} (h : ⟨.search (c.groupRequest id.dn id.username), .error e⟩ ∈ q) :
      c.Grouped q id id.groups
  | unconfigured (h : ¬ (c.cfg.groupBaseDN ≠ "" ∧ c.cfg.groupFilter ≠ "")) :
      c.Grouped q id id.groups

namespace Client

variable {c : Client} {username password : String} {q q' : Trace sig}

theorem Found.mono (hq : q <+: q') {dn : String} {groups : List String}
    (h : c.Found username q dn groups) : c.Found username q' dn groups := by
  cases h with
  | template h => exact .template h
  | entry h hsearch => exact .entry h (hq.subset hsearch)

theorem Grouped.mono (hq : q <+: q') {id : Identity} {groups : List String}
    (h : c.Grouped q id groups) : c.Grouped q' id groups := by
  cases h with
  | searched h => exact .searched (hq.subset h)
  | failed h => exact .failed (hq.subset h)
  | unconfigured h => exact .unconfigured h

omit [Library] in
/-- A search is on the trace with the entries that it returned. -/
theorem search_traced (request : SearchRequest) :
    (search request).run.Traced (fun _ _ => True) (fun q r => ⟨.search request, r⟩ ∈ q) q := by
  apply Prog.traced_ask.mpr
  constructor
  · trivial
  · intro r
    apply Prog.traced_pure.mpr
    simp

theorem searchUser_traced (htmpl : Go.trimSpace c.cfg.userDNTemplate = "") :
    (c.searchUser username).Traced (fun _ _ => True)
      (fun q id => c.Found username q id.dn id.groups) q := by
  have hsearch : (search (c.userRequest username)).Traced (fun _ _ => True)
      (fun q entries => ⟨.search (c.userRequest username), .ok entries⟩ ∈ q) q := by
    apply (search_traced _).mono (fun _ _ => id)
    intro q r hr entries hentries
    exact hentries ▸ hr
  apply hsearch.mapError.bind
  intro q' entries _ hentries
  match entries with
  | [] => exact traced_throw
  | [e] =>
    apply traced_pure
    exact .entry htmpl hentries
  | _ :: _ :: _ => exact traced_throw

/-- The identity that the password is verified for is one that was found. -/
theorem resolve_traced : (c.resolve username).Traced (fun _ _ => True)
    (fun q id => c.Found username q id.dn id.groups) q := by
  apply traced_ite
  · intro htmpl
    apply traced_pure
    exact .template htmpl
  · intro htmpl
    apply traced_any_bind
    intro q' _ _
    exact searchUser_traced (by simpa using htmpl)

/-- Whether a group search succeeds or fails, the groups are those of the answer. -/
theorem searchGroups_traced (id : Identity) :
    (c.searchGroups id.dn id.username).run.Traced (fun _ _ => True)
      (fun q found => c.Grouped q id (found.toOption.getD id.groups)) q := by
  have hsearch : ((search (c.groupRequest id.dn id.username)).mapError fun e =>
      Go.Error.wrap "group search: " e "").run.Traced (fun _ _ => True)
      (fun q r => c.Grouped q id ((r.toOption.map (·.flatMap c.groupValues)).getD id.groups)) q := by
    apply (search_traced _).bind
    intro q' r _ hr
    apply Prog.traced_pure.mpr
    cases r with
    | ok entries => exact .searched hr
    | error e => exact .failed hr
  unfold searchGroups
  rw [Act.run_bind]
  apply hsearch.bind
  intro q' r _ hr
  cases r with
  | ok entries => exact Prog.traced_pure.mpr hr
  | error e => exact Prog.traced_pure.mpr hr

theorem readGroups_traced (id : Identity) : (c.readGroups id).Traced (fun _ _ => True)
    (fun q groups => c.Grouped q id groups) q := by
  apply traced_ite
  · intro _
    apply traced_any_bind
    intro q' _ _
    apply (traced_attempt (searchGroups_traced id)).bind
    intro q' found _ hfound
    apply traced_pure
    cases found with
    | ok groups => exact hfound
    | error e => exact hfound
  · intro h
    apply traced_pure
    exact .unconfigured h

variable [Go.Runtime]

omit [Library] in
/-- **What the role of an administrator is decided by**: its groups and its own DN. -/
theorem isAdmin_iff {id : Identity} : c.isAdmin id = true ↔
    ∃ v ∈ id.groups ++ [id.dn], ∃ w ∈ c.cfg.adminGroups, Agree v w := by
  simp only [isAdmin, Bool.or_eq_true, matchesAny_iff, List.mem_append, or_and_right, exists_or]

end Client

/-! ## Every sign-in -/

variable [Go.Runtime]

/-- **The identity that a sign-in returns is what the directory said**: the DN and the groups are the
directory's, the password was accepted for the DN, and the role is the one that the groups and the DN
have. Where both sides write a name, texts agree as their names do. -/
structure Mapped (c : Client) (username password : String) (q : Trace sig) (id : Identity) :
    Prop where
  grouped : ∃ found : Identity, found.username = id.username ∧ found.dn = id.dn ∧
    c.Found username q found.dn found.groups ∧ c.Grouped q found id.groups
  bound : ⟨.bind id.dn password, .ok ()⟩ ∈ q
  admin : id.isAdmin = true ↔
    ∃ v ∈ id.groups ++ [id.dn], ∃ w ∈ c.cfg.adminGroups, Agree v w
  names : ∀ v ∈ id.groups ++ [id.dn], ∀ w ∈ c.cfg.adminGroups, ∀ m n : Name,
    m.Writes v → n.Writes w → (Agree v w ↔ m.Agrees n)

/-- **Every sign-in maps its identity**, whatever it is answered. -/
theorem authenticate_mapped (c : Client) (username password : String) :
    (c.authenticate username password).Traced (fun _ _ => True) (Mapped c username password) [] := by
  unfold Client.authenticate
  apply traced_any_bind
  intro _ _ _
  apply traced_any_bind
  intro _ _ _
  apply Client.resolve_traced.bind
  intro q found _ hfound
  have hbind : (bind found.dn password).Traced (fun _ _ => True)
      (fun q _ => ⟨.bind found.dn password, .ok ()⟩ ∈ q) q := by
    apply Prog.traced_ask.mpr
    constructor
    · trivial
    · intro r
      apply Prog.traced_pure.mpr
      rintro ⟨⟩ rfl
      simp
  apply hbind.mapError.bind
  intro q₁ _ hq₁ hbound
  apply (Client.readGroups_traced found).bind
  intro q₂ groups hq₂ hgroups
  apply traced_any_bind
  intro q₃ _ hq₃
  apply traced_pure
  exact {
    grouped := ⟨found, rfl, rfl, hfound.mono ((hq₁.trans hq₂).trans hq₃), hgroups.mono hq₃⟩
    bound := (hq₂.trans hq₃).subset hbound
    admin := Client.isAdmin_iff
    names := fun _ _ _ _ _ _ hv hw => agree_iff hv hw }

/-! ## A group of the same name, and a user of that name

`ExactRole` is what one would expect of the role: a full DN stands for one group, and a user is an
administrator through its groups alone. `matchesAny` also accepts the common name of a full DN, and
`Authenticate` also gives it the DN of the user. -/

/-- The groups that an entry of `admin_groups` designates: by their DN, or by their common name. -/
def Name.Designates : Name → DN → Prop
  | .full d, g => d.Same g
  | .bare n, g => g.commonName = some (Go.toLower n)

/-- A directory whose answers do not change. -/
def directory (answers : ∀ s : Stmt, s.Ans) : Sem sig Unit Unit := fun _ _ s => some (answers s, ())

/-- The identities of every sign-in are administrators exactly where an entry designates one of their
groups. -/
def ExactRole (c : Client) (answers : ∀ s : Stmt, s.Ans) : Prop :=
  ∀ username password id,
    (c.authenticate username password).run.evalWith (directory answers) () () = some (.ok id, ()) →
      ∀ groups entries, List.Forall₂ (fun g => (Name.full g).Writes) groups id.groups →
        List.Forall₂ Name.Writes entries c.cfg.adminGroups →
          (id.isAdmin = true ↔ ∃ w ∈ entries, ∃ g ∈ groups, w.Designates g)

end SignIn

section Sample

/-- Texts that need no escape, and no certificate. -/
@[reducible] def plainLibrary : Library where
  escapeFilter s := s
  escapeDN s := s
  appendCertsFromPEM _ := false

attribute [local instance] plainLibrary Go.asciiRuntime

def adminGroup : String := "cn=ca-admins,ou=groups,dc=example,dc=com"

/-- A portal whose administrators are one group. -/
def portal : Client where
  bindPassword := ""
  cfg := {
    enabled := true
    url := "ldaps://ldap.example.com"
    startTLS := false
    insecureSkipVerify := false
    caCertFile := ""
    bindDN := ""
    baseDN := "dc=example,dc=com"
    userFilter := ""
    userDNTemplate := ""
    attrUsername := "uid"
    attrDisplayName := "cn"
    attrEmail := "mail"
    groupBaseDN := ""
    groupFilter := ""
    attrGroup := ""
    adminGroups := [adminGroup]
    allowedGroups := []
    timeout := 0 }

/-- A directory with one user. -/
def oneUser (dn : String) (memberOf : List String) : ∀ s : Stmt, s.Ans
  | .readFile path => .error (.new ("open " ++ path))
  | .dialURL _ _ _ => .ok ()
  | .startTLS _ => .ok ()
  | .bind _ _ => .ok ()
  | .search _ => .ok [⟨dn, fun attr => if attr = "memberOf" then memberOf else []⟩]

/-- What of a user `ou=people` the sign-in returns. -/
def signedIn (dn : String) (groups : List String) : Identity where
  username := "mallory"
  dn
  displayName := "mallory"
  groups
  isAdmin := true

theorem plain_name : Plain "cn" "ca-admins" := by simp [Plain]

theorem plain_groups : Plain "ou" "groups" := by simp [Plain]

theorem plain_contractors : Plain "ou" "contractors" := by simp [Plain]

theorem plain_example : Plain "dc" "example" := by simp [Plain]

theorem plain_com : Plain "dc" "com" := by simp [Plain]

def admins : DN := [plain_name.rdn, plain_groups.rdn, plain_example.rdn, plain_com.rdn]

def contractors : DN := [plain_name.rdn, plain_contractors.rdn, plain_example.rdn, plain_com.rdn]

theorem adminGroup_written : List.Forall₂ Name.Writes [.full admins] portal.cfg.adminGroups :=
  .cons ⟨by simp [admins], by decide +kernel⟩ .nil

/-- A user is an administrator by its own common name, without any group, and a member of another
group by the common name of that group. -/
theorem role_not_exact :
    ¬ ExactRole portal (oneUser "cn=ca-admins,ou=people,dc=example,dc=com" []) ∧
      ¬ ExactRole portal (oneUser "uid=mallory,ou=people,dc=example,dc=com"
        ["cn=ca-admins,ou=contractors,dc=example,dc=com"]) := by
  constructor
  · intro h
    have hrun := h "mallory" "secret" (signedIn "cn=ca-admins,ou=people,dc=example,dc=com" [])
      (by decide +kernel) [] [.full admins] .nil adminGroup_written
    obtain ⟨w, _, g, hg, _⟩ := hrun.mp rfl
    cases hg
  · intro h
    have hrun := h "mallory" "secret" (signedIn "uid=mallory,ou=people,dc=example,dc=com"
      ["cn=ca-admins,ou=contractors,dc=example,dc=com"]) (by decide +kernel) [contractors]
      [.full admins] (.cons ⟨by simp [contractors], by decide +kernel⟩ .nil)
      adminGroup_written
    obtain ⟨w, hw, g, hg, hsame⟩ := hrun.mp rfl
    obtain rfl := List.mem_singleton.mp hw
    obtain rfl := List.mem_singleton.mp hg
    have hfolded : admins.map RDN.folded = contractors.map RDN.folded := hsame
    exact absurd hfolded (by decide +kernel)

end Sample

end Goca.Ldap
