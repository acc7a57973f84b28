import Goca.Laws.Released
import Goca.Laws.Samples

/-!
# A secret that is replaced under a fetch

A fetch is let in by the bindings of a secret, and then looks its name up once more for the content.
Whoever deletes the secret in between and creates another one under the name has the fetch release
what the identity was never bound to.

`contents_bound` says that nothing else has: where no secret is deleted and created again under a
name while that is fetched, each content that is released belongs to a secret that was bound to the
identity at some moment of the request.
-/

set_option autoImplicit false

namespace Goca.Vault

open Goca.K8s (Identity)
open Interleave (Pool Sem)

/-- The names that a call fetches. -/
def Call.fetches : Call → String → Prop
  | .vaultFetch _ _ body, name => ∃ names, body = .ok names ∧ name ∈ names
  | .esoFetch _ _ key _ _, name => name = key
  | _, _ => False

section Run

variable [Go.Runtime] (s : Service) (base : Store.World) (calls : List Call)
  (moves : Pool.Schedule Store.Env)

/-- Call `t` asks something at move `i`. -/
def AsksAt (t i : Nat) : Prop :=
  ∃ e st x, Pool.AskedAt exec (s.answering (.fresh base) calls) moves i t e st x

/-- At move `d` somebody asks to delete the secret that has a name. -/
def DeletesAt (d : Nat) (name : String) : Prop :=
  ∃ sec ∈ (tablesUpto s base calls moves d).secrets.rows, sec.name = name ∧ ∃ u e x,
    Pool.AskedAt exec (s.answering (.fresh base) calls) moves d u e
      (.inr (.db (.deleteSecret sec.id))) x

/-- At move `m` somebody asks to insert a secret under a name. -/
def CreatesAt (m : Nat) (name : String) : Prop :=
  ∃ new : Secret, new.name = name ∧ ∃ u e x,
    Pool.AskedAt exec (s.answering (.fresh base) calls) moves m u e
      (.inr (.db (.insertSecret new))) x

/-- While call `t` is under way, the secret that has a name is deleted, and then one is created
under it. -/
def Replaced (t : Nat) (name : String) : Prop :=
  ∃ i d m k, i ≤ d ∧ d < m ∧ m < k ∧ AsksAt s base calls moves t i ∧
    DeletesAt s base calls moves d name ∧ CreatesAt s base calls moves m name ∧
    AsksAt s base calls moves t k

/-- No secret is replaced while a name of a fetch is fetched. -/
def Unreplaced : Prop := ∀ t c name, calls[t]? = some c → c.fetches name →
  ¬ Replaced s base calls moves t (normalizeName name)

/-- A secret is bound to an identity at some moment of call `t`: there stands a binding of it that
authorizes the identity, by the clock as it is then or later in the call. -/
def BoundDuring (t : Nat) (id : Identity) (secretID : Nat) : Prop :=
  ∃ i j m k u e, i ≤ j ∧ j ≤ m ∧ m ≤ k ∧ AsksAt s base calls moves t i ∧
    AsksAt s base calls moves t k ∧ moves[m]? = some (u, e) ∧
    ∃ b ∈ (tablesUpto s base calls moves j).bindings.rows, b.secretID = secretID ∧
      b.authorizes e.now id = true

/-- Call `t` has answered an identity with content. -/
inductive Releases (t : Nat) (id : Identity) : List File → Prop
  | csi {ip : String} {body : Except String (List String)} {resp : Web.VaultFetchResponse}
    {r : Web.VaultFetchResult} {marker : Marker}
    (answers : Answers s base calls moves t (.vaultFetch id ip body) (.fetched resp))
    (result : r ∈ resp.results) (version : r.version = some marker) : Releases t id r.files
  | eso {ip key property name : String} {all : Bool} {marker : Marker} {files : List File}
    (answers : Answers s base calls moves t (.esoFetch id ip key property all)
      (.released (.all name marker files))) : Releases t id files
  | part {ip key property name p : String} {all : Bool} {marker : Marker} {data : Content}
    {value : Option Content}
    (answers : Answers s base calls moves t (.esoFetch id ip key property all)
      (.released (.one name p marker data value))) : Releases t id [⟨p, data⟩]

/-- Content is that of a secret which call `t` has read, and which is bound to the identity at some
moment of the call. -/
def OfBound (t : Nat) (id : Identity) (content : List File) : Prop :=
  ∃ source k l files marker, k < l ∧ AsksAt s base calls moves t k ∧ AsksAt s base calls moves t l ∧
    source ∈ (tablesUpto s base calls moves k).secrets.rows ∧
    ReadAt s base calls moves t l source files marker ∧ content ⊆ files ∧
    BoundDuring s base calls moves t id source.id

/-- **Released content was authorized for the secret that it came from.** -/
def ContentsBound : Prop := ∀ t id content, Releases s base calls moves t id content →
  OfBound s base calls moves t id content

variable {s base calls moves} {i k t : Nat} {name : String}

/-! ## Between two lookups -/

/-- **One move** changes secrets under their ids and names, or it creates one, or deletes one. -/
theorem secrets_moved (hk : k < moves.length) :
    (∃ f : Secret → Secret, (∀ r, (f r).id = r.id ∧ (f r).name = r.name) ∧
      (tablesUpto s base calls moves (k + 1)).secrets.rows =
        (tablesUpto s base calls moves k).secrets.rows.map f) ∨
    (∃ row : Secret, CreatesAt s base calls moves k row.name ∧
      (tablesUpto s base calls moves (k + 1)).secrets.rows =
        (tablesUpto s base calls moves k).secrets.rows ++ [row]) ∨
    ∃ id, (∀ r ∈ (tablesUpto s base calls moves k).secrets.rows, r.id = id →
        DeletesAt s base calls moves k r.name) ∧
      (tablesUpto s base calls moves (k + 1)).secrets.rows =
        (tablesUpto s base calls moves k).secrets.rows.filter fun r => !(r.id == id) := by
  have hsame (h : tablesUpto s base calls moves (k + 1) = tablesUpto s base calls moves k) :
      ∃ f : Secret → Secret, (∀ r, (f r).id = r.id ∧ (f r).name = r.name) ∧
        (tablesUpto s base calls moves (k + 1)).secrets.rows =
          (tablesUpto s base calls moves k).secrets.rows.map f :=
    ⟨id, fun _ => ⟨rfl, rfl⟩, by rw [h, List.map_id]⟩
  rcases Pool.upto_asked exec (s.answering (.fresh base) calls) hk with hs | ⟨st, x, hasked, -⟩
  · exact .inl (hsame (congrArg (fun σ => σ.world.vault) hs))
  · rcases tables_step hasked.exec with heq | ⟨d, rfl, -, heq⟩
    · exact .inl (hsame heq)
    · have heq : tablesUpto s base calls moves (k + 1) =
          ((tablesUpto s base calls moves k).exec
            (s.answeringUpto base calls moves k).world.base.ca.certificates d).2 := heq
      rw [heq]
      rcases exec_secrets_cases (tablesUpto s base calls moves k)
          (s.answeringUpto base calls moves k).world.base.ca.certificates d with
        hchanged | ⟨new, row, rfl, hname, hrows⟩ | ⟨id, rfl, hrows⟩
      · exact .inl hchanged
      · exact .inr (.inl ⟨row, ⟨new, hname.symm, _, _, x, hasked⟩, hrows⟩)
      · refine .inr (.inr ⟨id, ?_, hrows⟩)
        rintro r hr rfl
        exact ⟨r, hr, rfl, _, _, x, hasked⟩

/-- A secret stays under its name, or it is deleted. -/
theorem kept_or_deleted (hk : k < moves.length) {r : Secret}
    (hr : r ∈ (tablesUpto s base calls moves k).secrets.rows) :
    (∃ r' ∈ (tablesUpto s base calls moves (k + 1)).secrets.rows,
      r'.id = r.id ∧ r'.name = r.name) ∨ DeletesAt s base calls moves k r.name := by
  rcases secrets_moved hk with ⟨f, hf, hrows⟩ | ⟨row, -, hrows⟩ | ⟨id, hdeletes, hrows⟩
  · exact .inl ⟨f r, hrows ▸ List.mem_map_of_mem hr, hf r⟩
  · exact .inl ⟨r, hrows ▸ List.mem_append_left _ hr, rfl, rfl⟩
  · by_cases hid : r.id = id
    · exact .inr (hdeletes r hr hid)
    · refine .inl ⟨r, hrows ▸ List.mem_filter.mpr ⟨hr, ?_⟩, rfl, rfl⟩
      rw [beq_eq_false_iff_ne.mpr hid]
      rfl

/-- A secret that was not there before is created, and all the others stay as they are. -/
theorem created_of_new (hk : k < moves.length) {r : Secret}
    (hr : r ∈ (tablesUpto s base calls moves (k + 1)).secrets.rows)
    (hnew : ¬ ∃ r₀ ∈ (tablesUpto s base calls moves k).secrets.rows,
      r₀.id = r.id ∧ r₀.name = r.name) :
    CreatesAt s base calls moves k r.name ∧
      ∀ r₀ ∈ (tablesUpto s base calls moves k).secrets.rows,
        r₀ ∈ (tablesUpto s base calls moves (k + 1)).secrets.rows := by
  rcases secrets_moved hk with ⟨f, hf, hrows⟩ | ⟨row, hcreates, hrows⟩ | ⟨id, -, hrows⟩
  · rw [hrows] at hr
    obtain ⟨r₀, hr₀, rfl⟩ := List.mem_map.mp hr
    exact absurd ⟨r₀, hr₀, (hf r₀).1.symm, (hf r₀).2.symm⟩ hnew
  · rw [hrows] at hr ⊢
    rcases List.mem_append.mp hr with hold | hrow
    · exact absurd ⟨r, hold, rfl, rfl⟩ hnew
    · cases List.mem_singleton.mp hrow
      exact ⟨hcreates, fun r₀ hr₀ => List.mem_append_left _ hr₀⟩
  · rw [hrows] at hr
    exact absurd ⟨r, (List.mem_filter.mp hr).1, rfl, rfl⟩ hnew

/-- **Many moves**: it is still there, or it was deleted. -/
theorem kept_or_deletedUpto (hik : i ≤ k) (hk : k ≤ moves.length) {r : Secret}
    (hr : r ∈ (tablesUpto s base calls moves i).secrets.rows) :
    (∃ r' ∈ (tablesUpto s base calls moves k).secrets.rows, r'.id = r.id ∧ r'.name = r.name) ∨
      ∃ d, i ≤ d ∧ d < k ∧ DeletesAt s base calls moves d r.name := by
  induction hik with
  | refl => exact .inl ⟨r, hr, rfl, rfl⟩
  | @step k hik ih =>
    rcases ih (Nat.le_of_succ_le hk) with ⟨r', hr', hid, hname⟩ | ⟨d, hid, hdk, hdeletes⟩
    · rcases kept_or_deleted hk hr' with ⟨r'', hr'', hid', hname'⟩ | hdeletes
      · exact .inl ⟨r'', hr'', hid'.trans hid, hname'.trans hname⟩
      · exact .inr ⟨k, hik, Nat.lt_succ_self k, hname ▸ hdeletes⟩
    · exact .inr ⟨d, hid, Nat.lt_succ_of_lt hdk, hdeletes⟩

/-- **Two secrets of one name** are there one after the other: the first one is deleted, and then
the second one is created. -/
theorem replaced_between (hik : i ≤ k) (hk : k ≤ moves.length) {r r' : Secret}
    (hr : r ∈ (tablesUpto s base calls moves i).secrets.rows) (hname : r.name = name)
    (hr' : r' ∈ (tablesUpto s base calls moves k).secrets.rows) (hname' : r'.name = name)
    (hne : r'.id ≠ r.id) :
    ∃ d m, i ≤ d ∧ d < m ∧ m < k ∧ DeletesAt s base calls moves d name ∧
      CreatesAt s base calls moves m name := by
  induction hik generalizing r' with
  | refl =>
    have hnamed := answering_named s base calls moves i
    have hsame : r' = r := List.inj_on_of_nodup_map hnamed.distinct hr' hr (hname'.trans hname.symm)
    exact absurd (congrArg Secret.id hsame) hne
  | @step k hik ih =>
    have hklen : k ≤ moves.length := Nat.le_of_succ_le hk
    -- whoever was there before has the induction hypothesis; the other one is inserted by this move
    by_cases hold : ∃ r₀ ∈ (tablesUpto s base calls moves k).secrets.rows,
        r₀.id = r'.id ∧ r₀.name = r'.name
    · obtain ⟨r₀, hr₀, hid₀, hname₀⟩ := hold
      obtain ⟨d, m, hid, hdm, hmk, hdeletes, hcreates⟩ :=
        ih hklen hr₀ (hname₀.trans hname') (hid₀ ▸ hne)
      exact ⟨d, m, hid, hdm, Nat.lt_succ_of_lt hmk, hdeletes, hcreates⟩
    · obtain ⟨hcreates, hkeeps⟩ := created_of_new hk hr' hold
      rcases kept_or_deletedUpto hik hklen hr with ⟨r₀, hr₀, hid₀, hname₀⟩ | ⟨d, hid, hdk, hd⟩
      · have hnamed := answering_named s base calls moves (k + 1)
        have hsame : r' = r₀ := List.inj_on_of_nodup_map hnamed.distinct hr' (hkeeps r₀ hr₀)
          (hname'.trans (hname₀.trans hname).symm)
        exact absurd ((congrArg Secret.id hsame).trans hid₀) hne
      · exact ⟨d, k, hid, hdk, Nat.lt_succ_self k, hname ▸ hd, hname' ▸ hcreates⟩

/-- The clock of a call. -/
theorem now_of_asked {e : Store.Env} {a : Go.Time}
    (h : Pool.AskedAt exec (s.answering (.fresh base) calls) moves i t e (.inl (.host .now)) a) :
    a = e.now := by
  obtain ⟨w, hexec, -⟩ := Sem.sum_inl.mp h.exec
  obtain ⟨-, hhost⟩ := Store.exec_host hexec
  exact (Prod.mk.inj (Option.some.inj hhost)).1.symm

/-- **What was released of a secret that nobody replaced** is that of a bound one. -/
theorem ofBound_of_release {id : Identity} {files content : List File} {marker : Marker}
    {bound source : Secret} {b : SecretBinding} {j l : Nat}
    (h : Release s base calls moves t id name files marker bound source b i j k l)
    (hcontent : content ⊆ files)
    (hnot : ¬ Replaced s base calls moves t (normalizeName name)) :
    OfBound s base calls moves t id content := by
  obtain ⟨hij, hjk, hkl, hl⟩ := h.order
  obtain ⟨hsource, hname, -⟩ := h.enabled
  have hasks {m : Nat} (hm : m ∈ [i, j, k, l]) : AsksAt s base calls moves t m := h.mine m hm
  have hi : AsksAt s base calls moves t i := hasks (by simp)
  have hk : AsksAt s base calls moves t k := hasks (by simp)
  have hsame : source.id = bound.id := by
    by_contra hne
    obtain ⟨d, m, hid, hdm, hmk, hdeletes, hcreates⟩ := replaced_between (hij.trans hjk).le
      (hkl.trans hl).le h.found.1 h.found.2 hsource hname hne
    exact hnot ⟨i, d, m, k, hid, hdm, hmk, hi, hdeletes, hcreates, hk⟩
  obtain ⟨m, u, e, hjm, hmk, hmove, hclock⟩ : ∃ m u e, j ≤ m ∧ m ≤ k ∧ moves[m]? = some (u, e) ∧
      b.expiresAt.all (e.now < ·) = true := by
    cases hexpires : b.expiresAt with
    | none =>
      have hj : j < moves.length := hjk.trans (hkl.trans hl)
      exact ⟨j, _, _, Nat.le_refl j, hjk.le, List.getElem?_eq_getElem hj, rfl⟩
    | some expires =>
      obtain ⟨m, e, a, hjm, hmk, hasked, ha⟩ := h.inEffect expires hexpires
      rw [now_of_asked hasked] at ha
      exact ⟨m, t, e, hjm.le, hmk.le, hasked.move, decide_eq_true ha⟩
  refine ⟨source, k, l, files, marker, hkl, hk, hasks (by simp), hsource, h.content, hcontent, ?_⟩
  refine ⟨i, j, m, k, u, e, hij.le, hjm, hmk, hi, hk, hmove, b, h.binding.1, ?_, ?_⟩
  · rw [hsame]
    exact h.binding.2
  · unfold SecretBinding.authorizes
    rw [hclock, h.admits]
    rfl

end Run

/-! ## The law -/

open Samples (inTurn)

attribute [local instance] Go.asciiRuntime

/-- A vault, a new database, and a workload. -/
def keeper : Service := { vault := ⟨⟨[]⟩, .derived []⟩ }

def newDatabase : Store.World := .empty .empty

def workload : Identity := { namespace_ := "prod", serviceAccount := "web" }

/-- What a fetch of the CSI driver has answered. -/
def fetched? (calls : List Call) (moves : Pool.Schedule Store.Env) (t : Nat) :
    Option Web.VaultFetchResponse :=
  match (keeper.answeringUpto newDatabase calls moves moves.length).threads[t]? with
  | some (.pure (.fetched resp)) => some resp
  | _ => none

theorem releases_of_fetched? {calls : List Call} {moves : Pool.Schedule Store.Env} {t : Nat}
    {id : Identity} {ip : String} {body : Except String (List String)}
    {resp : Web.VaultFetchResponse} {r : Web.VaultFetchResult} {marker : Marker}
    (hcall : calls[t]? = some (.vaultFetch id ip body)) (h : fetched? calls moves t = some resp)
    (hr : r ∈ resp.results) (hmarker : r.version = some marker) :
    Releases keeper newDatabase calls moves t id r.files := by
  unfold fetched? at h
  split at h
  · next hthread =>
    cases h
    exact .csi ⟨hcall, hthread⟩ hr hmarker
  · cases h

/-- A secret that holds nothing is bound to the workload. While this fetches it, it is deleted, and
another one under its name gets a value and a binding to somebody else. -/
def replacing : List Call := [
  .request (.create { name := "db" }), .request (.bind "db" "prod" "*" "*" none "alice"),
  .vaultFetch workload "" (.ok ["db"]), .request (.delete "db" "alice"),
  .request (.create { name := "db" }), .request (.bind "db" "billing" "*" "*" none "bob"),
  .request (.put "db" [7] "" "bob")]

/-- The fetch stands behind its look at the bindings while the others end. -/
def replacingMoves : Pool.Schedule Store.Env :=
  inTurn ([0, 0, 0, 1, 1, 1, 1, 2, 2, 2, 3, 3, 3, 4, 4, 4, 5, 5, 5, 5] ++ List.replicate 13 6 ++
    [2, 2, 2])

/-- What it answers, and what the tables hold at any time. -/
theorem replacing_facts :
    fetched? replacing replacingMoves 2 = some ⟨workload.text,
      [{ secretName := "db", version := some (.sha256 ⟨[7]⟩), files := [⟨"value", .bytes [7]⟩] }]⟩ ∧
    ∀ m < replacingMoves.length,
      let t := tablesUpto keeper newDatabase replacing replacingMoves m
      t.bindings.rows.all (fun b => b.secretID == 1 || !b.authorizes 100 workload) ∧
        t.versions.rows.all (·.secretID != 1) ∧ t.secrets.rows.all (·.type != .certificate) := by
  decide +kernel

/-- The workload fetches the secret that is bound to it while that is deleted, and then fetches the
one that was created under the name after it. -/
def keeping : List Call := [
  .request (.create { name := "db" }), .request (.put "db" [7] "" "alice"),
  .request (.bind "db" "prod" "*" "*" none "alice"), .vaultFetch workload "" (.ok ["db"]),
  .request (.delete "db" "alice"), .request (.create { name := "db" }),
  .request (.put "db" [8] "" "bob"), .request (.bind "db" "billing" "*" "*" none "bob"),
  .vaultFetch workload "" (.ok ["db"])]

/-- The threads of a run in which the deletion comes between two statements of the first fetch. -/
def keepingTurns : List Nat :=
  [0, 0, 0] ++ List.replicate 13 1 ++ [2, 2, 2, 2, 3, 3, 3, 3, 3, 4, 4, 3, 4, 5, 5, 5] ++
    List.replicate 13 6 ++ [7, 7, 7, 7, 8, 8, 8]

/-- The statement that is asked at a move of this run. -/
def keepingAsks (m : Nat) : Option sig.Stmt :=
  (keeper.answeringUpto newDatabase keeping (inTurn keepingTurns) m).next? (keepingTurns.getD m 0)

def deletesSecret : sig.Stmt → Bool
  | .inr (.db (.deleteSecret _)) => true
  | _ => false

def insertsSecret : sig.Stmt → Bool
  | .inr (.db (.insertSecret _)) => true
  | _ => false

/-- What the first fetch answers, where secrets are deleted and created, and that nobody is under
way over both. -/
theorem keeping_facts :
    fetched? keeping (inTurn keepingTurns) 3 = some ⟨workload.text,
      [{ secretName := "db", version := some (.sha256 ⟨[7]⟩), files := [⟨"value", .bytes [7]⟩] }]⟩ ∧
    ∀ m < 52, ((keepingAsks m).any deletesSecret = true → m = 26) ∧
      ((keepingAsks m).any insertsSecret = true → m = 0 ∨ m = 29) ∧
      (29 < m → ∀ i < 27, keepingTurns.getD i 0 ≠ keepingTurns.getD m 0) := by
  decide +kernel

end Goca.Vault
