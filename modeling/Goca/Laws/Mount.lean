import Mathlib.Data.List.Forall2
import Mathlib.Data.List.Nodup
import Goca.Csi.Provider

/-!
# The files of a mounted volume

A mount lists the files of its objects one behind the other. Each name is checked for leading out of
the volume (`inside_of_targetFileName`), and none is compared with another: the names come from the
server, from `fileName` and from `items`, and each of the three can meet the others. Nor does anyone
look at what is missing. An object whose secret has no file adds none, a name in `items` for a role
that no file has is passed over, and of two answers under one name the later one counts.

`Laid` says when none of this happens, and `mount_wellFormed_iff` that a volume is well formed
exactly then.
-/

set_option autoImplicit false

namespace Goca.Csi

/-! ## Lists side by side -/

section Pairs

variable {α β : Type} {R : α → β → Prop}

/-- What stands on the right has something on the left. -/
theorem exists_left_of_forall₂ {as : List α} {bs : List β} (h : List.Forall₂ R as bs) {b : β}
    (hb : b ∈ bs) : ∃ a ∈ as, R a b := by
  induction h with
  | nil => cases hb
  | @cons a b' as bs hhead _ ih =>
    rcases List.mem_cons.mp hb with rfl | hb
    · exact ⟨a, List.mem_cons_self, hhead⟩
    · obtain ⟨a', ha', hR⟩ := ih hb
      exact ⟨a', List.mem_cons_of_mem a ha', hR⟩

/-- What stands on the left has something on the right. -/
theorem exists_right_of_forall₂ {as : List α} {bs : List β} (h : List.Forall₂ R as bs) {a : α}
    (ha : a ∈ as) : ∃ b ∈ bs, R a b :=
  exists_left_of_forall₂ (R := fun b a => R a b) h.flip ha

/-- Two functions that agree on every pair agree on the lists. -/
theorem map_eq_of_forall₂ {γ : Type} {f : α → γ} {g : β → γ} {as : List α} {bs : List β}
    (h : List.Forall₂ R as bs) (hfg : ∀ a b, R a b → f a = g b) : as.map f = bs.map g := by
  induction h with
  | nil => rfl
  | cons hhead _ ih => rw [List.map_cons, List.map_cons, hfg _ _ hhead, ih]

end Pairs

/-! ## What a volume holds -/

/-- **A file of the volume serves a file of the server**, for one object: it stands under the name
that the object gives it, with the bytes that the server sent. -/
structure Serves (o : ObjectSpec) (f : FetchFile) (x : File) : Prop where
  path : x.path = Go.clean (o.mountName f.name)
  contents : Go.Base64.stdDecode f.dataBase64 = .ok x.contents

/-- **A well-formed volume** for the objects of a request and the answer of the server. -/
structure WellFormed (objects : List ObjectSpec) (results : List FetchResult)
    (resp : MountResponse) : Prop where
  /-- No path stands twice. -/
  distinct : (resp.files.map File.path).Nodup
  /-- Every path is relative and stays inside the mount. -/
  inside : ∀ x ∈ resp.files, Go.Inside x.path
  /-- Each object has at least one file. -/
  contributes : ∀ o ∈ objects, ∃ r, byName results o.secretName = some r ∧
    ∃ f ∈ r.files, ∃ x ∈ resp.files, Serves o f x
  /-- Each file of the server for an object appears once. -/
  complete : ∀ o ∈ objects, ∀ r ∈ results, r.secretName = o.secretName → ∀ f ∈ r.files,
    ∃ x, Serves o f x ∧ resp.files.count x = 1
  /-- Each item that an object maps appears once, with the bytes of its role. -/
  items : ∀ o ∈ objects, ∀ role name, o.items.lookup role = some name → name ≠ "" →
    ∃ r ∈ results, r.secretName = o.secretName ∧ ∃ f ∈ r.files, semantic f.name = some role ∧
      ∃ x : File, x.path = Go.clean name ∧ Go.Base64.stdDecode f.dataBase64 = .ok x.contents ∧
        resp.files.count x = 1

/-- The files that a mount takes for an object. -/
def takenFiles (results : List FetchResult) (o : ObjectSpec) : List FetchFile :=
  ((byName results o.secretName).map FetchResult.files).getD []

/-- The files that a mount takes, each with its object. -/
def taken (objects : List ObjectSpec) (results : List FetchResult) :
    List (ObjectSpec × FetchFile) :=
  objects.flatMap fun o => (takenFiles results o).map (o, ·)

/-- The path that a file is mounted under. -/
def target (t : ObjectSpec × FetchFile) : String := Go.clean (t.1.mountName t.2.name)

/-- **Objects and results that fit**: no two names meet, every object has a file, every mapped item
has one of its role, and a result that a later one under its name replaces adds nothing to it. -/
structure Laid (objects : List ObjectSpec) (results : List FetchResult) : Prop where
  distinct : ((taken objects results).map target).Nodup
  filled : ∀ o ∈ objects, takenFiles results o ≠ []
  mapped : ∀ o ∈ objects, ∀ role name, o.items.lookup role = some name → name ≠ "" →
    ∃ r ∈ results, r.secretName = o.secretName ∧ ∃ f ∈ r.files, semantic f.name = some role
  covered : ∀ o ∈ objects, ∀ r ∈ results, r.secretName = o.secretName → ∀ f ∈ r.files,
    ∃ t ∈ taken objects results, target t = target (o, f) ∧
      Go.Base64.stdDecode t.2.dataBase64 = Go.Base64.stdDecode f.dataBase64

/-- A result is found under its name. -/
theorem mem_of_byName {results : List FetchResult} {name : String} {r : FetchResult}
    (h : byName results name = some r) : r ∈ results ∧ r.secretName = name := by
  unfold byName at h
  exact ⟨List.mem_reverse.mp (List.mem_of_find?_eq_some h),
    eq_of_beq (List.find?_some (p := fun r : FetchResult => r.secretName == name) h)⟩

/-- Nothing is replaced where each name is answered once. -/
theorem byName_of_nodup {results : List FetchResult}
    (hnodup : (results.map FetchResult.secretName).Nodup) {r : FetchResult} (hr : r ∈ results) :
    byName results r.secretName = some r := by
  cases hfound : byName results r.secretName with
  | none =>
    have hnone := List.find?_eq_none.mp hfound r (List.mem_reverse.mpr hr)
    exact absurd (beq_self_eq_true r.secretName) hnone
  | some r' =>
    obtain ⟨hr', hname⟩ := mem_of_byName hfound
    rw [List.inj_on_of_nodup_map hnodup hr' hr hname]

/-- Where each name is answered once, a mount takes every file of an object. -/
theorem covered_of_nodup {objects : List ObjectSpec} {results : List FetchResult}
    (hnodup : (results.map FetchResult.secretName).Nodup) {o : ObjectSpec} (ho : o ∈ objects)
    {r : FetchResult} (hr : r ∈ results) (hname : r.secretName = o.secretName) {f : FetchFile}
    (hf : f ∈ r.files) : ∃ t ∈ taken objects results, target t = target (o, f) ∧
      Go.Base64.stdDecode t.2.dataBase64 = Go.Base64.stdDecode f.dataBase64 := by
  have htaken : f ∈ takenFiles results o := by
    unfold takenFiles
    rw [← hname, byName_of_nodup hnodup hr]
    exact hf
  exact ⟨(o, f), List.mem_flatMap.mpr ⟨o, ho, List.mem_map.mpr ⟨f, htaken, rfl⟩⟩, rfl, rfl⟩

/-- A name that an object maps a role to is the name of the file of that role. -/
theorem mountName_of_items {o : ObjectSpec} {role name materialized : String}
    (hitem : o.items.lookup role = some name) (hname : name ≠ "")
    (hrole : semantic materialized = some role) : o.mountName materialized = name := by
  have hmapped : o.items ≠ ∅ := by
    intro hempty
    rw [hempty, Finmap.lookup_empty] at hitem
    cases hitem
  have hvalue : Go.Json.value o.items role = name := by
    unfold Go.Json.value
    rw [hitem, Option.getD_some]
  unfold ObjectSpec.mountName
  rw [if_pos hmapped, hrole]
  dsimp only
  rw [hvalue, if_pos hname]

/-! ## What a mount lists -/

/-- A file of the volume is what the mount made of one of the server. -/
structure Mounted (t : ObjectSpec × FetchFile) (x : File) : Prop extends Serves t.1 t.2 x where
  inside : Go.Inside x.path

/-- **A name that passes its check** is the shortest form of the name, and stays inside. -/
theorem inside_of_targetFileName {o : ObjectSpec} {materialized path : String}
    (h : targetFileName o materialized = .ok path) :
    path = Go.clean (o.mountName materialized) ∧ Go.Inside path := by
  unfold targetFileName at h
  dsimp only at h
  split at h
  · cases h
  · rename_i hsafe
    obtain rfl := Except.ok.inj h
    rw [not_or, not_or, not_or, Bool.not_eq_true, Bool.not_eq_true] at hsafe
    exact ⟨rfl, Go.inside_of_clean hsafe.1 hsafe.2.1 hsafe.2.2.1 hsafe.2.2.2⟩

theorem mounted_of_mountFile {o : ObjectSpec} {f : FetchFile} {x : File}
    (h : mountFile o f = .ok x) : Mounted (o, f) x := by
  obtain ⟨path, hpath, h⟩ := Go.bind_eq_ok.mp h
  obtain ⟨contents, hcontents, h⟩ := Go.bind_eq_ok.mp h
  obtain rfl := Except.ok.inj h
  obtain ⟨heq, hinside⟩ := inside_of_targetFileName (Go.mapError_eq_ok.mp hpath)
  exact ⟨⟨heq, Go.mapError_eq_ok.mp hcontents⟩, hinside⟩

theorem mounted_of_mountFiles {o : ObjectSpec} (fs : List FetchFile) {files : List File}
    (h : mountFiles o fs = .ok files) : List.Forall₂ Mounted (fs.map (o, ·)) files := by
  induction fs generalizing files with
  | nil =>
    obtain rfl := Except.ok.inj h
    exact .nil
  | cons f fs ih =>
    obtain ⟨x, hx, h⟩ := Go.bind_eq_ok.mp h
    obtain ⟨rest, hrest, h⟩ := Go.bind_eq_ok.mp h
    obtain rfl := Except.ok.inj h
    exact .cons (mounted_of_mountFile hx) (ih hrest)

/-- One object adds the files of the last result under its name. -/
theorem mounted_of_mountObject {results : List FetchResult} {o : ObjectSpec} {files : List File}
    {version : ObjectVersion} (h : mountObject results o = .ok (files, version)) :
    List.Forall₂ Mounted ((takenFiles results o).map (o, ·)) files := by
  unfold mountObject at h
  unfold takenFiles
  cases hfound : byName results o.secretName with
  | none =>
    rw [hfound] at h
    cases h
  | some r =>
    rw [hfound] at h
    dsimp only at h
    by_cases hfailed : r.error ≠ ""
    · rw [if_pos hfailed] at h
      cases h
    · rw [if_neg hfailed] at h
      by_cases hmany : 1 < r.files.length ∧ o.fileName ≠ ""
      · rw [if_pos hmany] at h
        cases h
      · rw [if_neg hmany] at h
        obtain ⟨files', hfiles, h⟩ := Go.bind_eq_ok.mp h
        obtain ⟨rfl, -⟩ := Prod.mk.inj (Except.ok.inj h)
        exact mounted_of_mountFiles r.files hfiles

/-- **The loop over the objects** lists a file for each that it takes. -/
theorem mounted_of_mountEach {results : List FetchResult} (objects : List ObjectSpec)
    {resp : MountResponse} (h : mountEach results objects = .ok resp) :
    List.Forall₂ Mounted (taken objects results) resp.files := by
  induction objects generalizing resp with
  | nil =>
    obtain rfl := Except.ok.inj h
    exact .nil
  | cons o objects ih =>
    obtain ⟨⟨files, version⟩, hfiles, h⟩ := Go.bind_eq_ok.mp h
    obtain ⟨rest, hrest, h⟩ := Go.bind_eq_ok.mp h
    obtain rfl := Except.ok.inj h
    unfold taken
    rw [List.flatMap_cons]
    exact List.rel_append (mounted_of_mountObject hfiles) (ih hrest)

/-! ## Exactly when a volume is well formed -/

/-- The paths of a volume are those that the objects give. -/
theorem paths_eq {objects : List ObjectSpec} {results : List FetchResult} {resp : MountResponse}
    (h : List.Forall₂ Mounted (taken objects results) resp.files) :
    (taken objects results).map target = resp.files.map File.path :=
  map_eq_of_forall₂ h fun _ _ hx => hx.path.symm

/-- What a mount takes for an object is in the volume. -/
theorem exists_serves {objects : List ObjectSpec} {results : List FetchResult}
    {resp : MountResponse} (h : List.Forall₂ Mounted (taken objects results) resp.files)
    {o : ObjectSpec} (ho : o ∈ objects) {f : FetchFile} (hf : f ∈ takenFiles results o) :
    ∃ x ∈ resp.files, Serves o f x := by
  have htaken : (o, f) ∈ taken objects results :=
    List.mem_flatMap.mpr ⟨o, ho, List.mem_map.mpr ⟨f, hf, rfl⟩⟩
  obtain ⟨x, hx, hmounted⟩ := exists_right_of_forall₂ h htaken
  exact ⟨x, hx, hmounted.toServes⟩

/-- A well-formed volume was made of objects and results that fit. -/
theorem laid_of_wellFormed {objects : List ObjectSpec} {results : List FetchResult}
    {resp : MountResponse} (h : List.Forall₂ Mounted (taken objects results) resp.files)
    (hwell : WellFormed objects results resp) : Laid objects results := by
  refine ⟨?_, ?_, ?_, ?_⟩
  · rw [paths_eq h]
    exact hwell.distinct
  · intro o ho hempty
    obtain ⟨r, hr, f, hf, -⟩ := hwell.contributes o ho
    unfold takenFiles at hempty
    rw [hr, Option.map_some, Option.getD_some] at hempty
    rw [hempty] at hf
    cases hf
  · intro o ho role name hitem hname
    obtain ⟨r, hr, hrname, f, hf, hrole, -⟩ := hwell.items o ho role name hitem hname
    exact ⟨r, hr, hrname, f, hf, hrole⟩
  · intro o ho r hr hrname f hf
    obtain ⟨x, hserves, hcount⟩ := hwell.complete o ho r hr hrname f hf
    have hx : x ∈ resp.files := List.count_pos_iff.mp (by rw [hcount]; exact Nat.one_pos)
    obtain ⟨t, ht, hmounted⟩ := exists_left_of_forall₂ h hx
    exact ⟨t, ht, hmounted.path.symm.trans hserves.path,
      hmounted.contents.trans hserves.contents.symm⟩

/-- Objects and results that fit make a well-formed volume. -/
theorem wellFormed_of_laid {objects : List ObjectSpec} {results : List FetchResult}
    {resp : MountResponse} (h : List.Forall₂ Mounted (taken objects results) resp.files)
    (hlaid : Laid objects results) : WellFormed objects results resp := by
  have hdistinct : (resp.files.map File.path).Nodup := by
    rw [← paths_eq h]
    exact hlaid.distinct
  have hcomplete : ∀ o ∈ objects, ∀ r ∈ results, r.secretName = o.secretName → ∀ f ∈ r.files,
      ∃ x, Serves o f x ∧ resp.files.count x = 1 := by
    intro o ho r hr hrname f hf
    obtain ⟨t, ht, htarget, hbytes⟩ := hlaid.covered o ho r hr hrname f hf
    obtain ⟨x, hx, hmounted⟩ := exists_right_of_forall₂ h ht
    exact ⟨x, ⟨hmounted.path.trans htarget, hbytes.symm.trans hmounted.contents⟩,
      List.count_eq_one_of_mem hdistinct.of_map hx⟩
  refine ⟨hdistinct, ?_, ?_, hcomplete, ?_⟩
  · intro x hx
    obtain ⟨t, -, hmounted⟩ := exists_left_of_forall₂ h hx
    exact hmounted.inside
  · intro o ho
    obtain ⟨f, hf⟩ := List.exists_mem_of_ne_nil _ (hlaid.filled o ho)
    obtain ⟨x, hx, hserves⟩ := exists_serves h ho hf
    unfold takenFiles at hf
    cases hr : byName results o.secretName with
    | none =>
      rw [hr] at hf
      cases hf
    | some r =>
      rw [hr] at hf
      exact ⟨r, rfl, f, hf, x, hx, hserves⟩
  · intro o ho role name hitem hname
    obtain ⟨r, hr, hrname, f, hf, hrole⟩ := hlaid.mapped o ho role name hitem hname
    obtain ⟨x, hserves, hcount⟩ := hcomplete o ho r hr hrname f hf
    refine ⟨r, hr, hrname, f, hf, hrole, x, ?_, hserves.contents, hcount⟩
    rw [hserves.path, mountName_of_items hitem hname hrole]

/-- **A mounted volume is well formed exactly where its objects and results fit**: for every request
that is answered, and whatever the server sends. -/
theorem mount_wellFormed_iff [Library] (p : Provider)
    (send : HTTPRequest → Except Go.Error HTTPResponse) (attributes : String)
    {resp : MountResponse} (h : p.mount send attributes = .ok resp) :
    ∃ attrs objects results, parseAttributes attributes = .ok attrs ∧
      requestedObjects attrs = .ok objects ∧ p.resolve send attrs objects = .ok results ∧
      (WellFormed objects results resp ↔ Laid objects results) := by
  obtain ⟨attrs, hattrs, h⟩ := Go.bind_eq_ok.mp h
  obtain ⟨objects, hobjects, h⟩ := Go.bind_eq_ok.mp h
  obtain ⟨results, hresults, h⟩ := Go.bind_eq_ok.mp h
  have hmounted := mounted_of_mountEach objects h
  exact ⟨attrs, objects, results, hattrs, hobjects, hresults, laid_of_wellFormed hmounted,
    wellFormed_of_laid hmounted⟩

/-! ## Two secrets with a file of one name -/

/-- The objects of two classes, as their parameters list them. -/
def plainText : String := "[\x7bsecretName: db\x7d, \x7bsecretName: api\x7d]"
def namedText : String :=
  "[\x7bsecretName: db, fileName: db.txt\x7d, \x7bsecretName: api, fileName: api.txt\x7d]"

/-- The tokens of a pod. -/
def tokensText : String := "\x7b\"goca\":\x7b\"token\":\"jwt\"\x7d\x7d"

/-- What the server answers. -/
def answerText : String :=
  "\x7b\"identity\":\"web\",\"results\":[" ++
    "\x7b\"secret_name\":\"db\",\"files\":[" ++
      "\x7b\"name\":\"value\",\"data_base64\":\"aGk=\"\x7d]\x7d," ++
    "\x7b\"secret_name\":\"api\",\"files\":[" ++
      "\x7b\"name\":\"value\",\"data_base64\":\"aA==\"\x7d]\x7d]\x7d"

/-- The decoders, at these texts. -/
@[reducible] def sampleLibrary : Library where
  attributesError _ := .new "invalid character"
  parseObjects text :=
    if text = plainText then .ok [{ secretName := "db" }, { secretName := "api" }]
    else if text = namedText then
      .ok [{ secretName := "db", fileName := "db.txt" },
        { secretName := "api", fileName := "api.txt" }]
    else .error (.new "yaml: unmarshal errors")
  parseTokens text :=
    if text = tokensText then .ok (Finmap.singleton "goca" "jwt")
    else .error (.new "invalid character")
  checkURL _ := .ok ()
  decodeResults body :=
    if body = answerText then
      .ok [{ secretName := "db", files := [⟨"value", "aGk="⟩] },
        { secretName := "api", files := [⟨"value", "aA=="⟩] }]
    else .error (.new "invalid character")

attribute [local instance] sampleLibrary

/-- The provider of a cluster. -/
def sampleProvider : Provider :=
  { audience := "goca", defaultGocaAddress := "https://ca.internal" }

/-- The server. -/
def sampleServer (_ : HTTPRequest) : Except Go.Error HTTPResponse :=
  .ok { statusCode := 200, body := answerText }

/-- The attributes of a pod whose class lists these objects. -/
def podAttributes (objects : String) : Go.Json.StringMap :=
  (Finmap.singleton "objects" objects).insert
    "csi.storage.k8s.io/serviceAccount.tokens" tokensText

/-- A request is read as it was written. -/
theorem parseAttributes_marshal (attrs : Go.Json.StringMap) :
    parseAttributes (Go.Json.marshal attrs) = .ok attrs := by
  unfold parseAttributes
  rw [Go.Json.unmarshal_marshal]

/-- A mount after its request is read. -/
theorem mount_marshal (p : Provider) (send : HTTPRequest → Except Go.Error HTTPResponse)
    (attrs : Go.Json.StringMap) :
    p.mount send (Go.Json.marshal attrs) = (do
      let objects ← requestedObjects attrs
      let results ← p.resolve send attrs objects
      mountEach results objects) := by
  unfold Provider.mount
  rw [parseAttributes_marshal]
  rfl


set_option maxRecDepth 8000 in
/-- Two names of their own. -/
theorem mount_wellFormed_named : ∃ resp,
    sampleProvider.mount sampleServer (Go.Json.marshal (podAttributes namedText)) = .ok resp ∧
    ∃ attrs objects results,
      parseAttributes (Go.Json.marshal (podAttributes namedText)) = .ok attrs ∧
      requestedObjects attrs = .ok objects ∧
      sampleProvider.resolve sampleServer attrs objects = .ok results ∧
      (WellFormed objects results resp ↔ Laid objects results) := by
  have hmount : sampleProvider.mount sampleServer (Go.Json.marshal (podAttributes namedText)) =
      .ok ⟨[⟨"db.txt", 0o600, [104, 105]⟩, ⟨"api.txt", 0o600, [104]⟩],
        [⟨"db", ""⟩, ⟨"api", ""⟩]⟩ := by
    rw [mount_marshal]
    decide +kernel
  exact ⟨_, hmount, mount_wellFormed_iff sampleProvider sampleServer _ hmount⟩

set_option maxRecDepth 8000 in
/-- **Two objects with neither `fileName` nor `items`**: both files stand under `value`. -/
theorem mount_same_path : ¬ ∀ [Library] (p : Provider)
    (send : HTTPRequest → Except Go.Error HTTPResponse) (attributes : String)
    (resp : MountResponse), p.mount send attributes = .ok resp →
    ∃ attrs objects results, parseAttributes attributes = .ok attrs ∧
      requestedObjects attrs = .ok objects ∧ p.resolve send attrs objects = .ok results ∧
      WellFormed objects results resp := by
  intro h
  have hmount : sampleProvider.mount sampleServer (Go.Json.marshal (podAttributes plainText)) =
      .ok ⟨[⟨"value", 0o600, [104, 105]⟩, ⟨"value", 0o600, [104]⟩],
        [⟨"db", ""⟩, ⟨"api", ""⟩]⟩ := by
    rw [mount_marshal]
    decide +kernel
  obtain ⟨attrs, objects, results, -, -, -, hwell⟩ :=
    h sampleProvider sampleServer _ _ hmount
  exact absurd hwell.distinct (by decide)

end Goca.Csi
