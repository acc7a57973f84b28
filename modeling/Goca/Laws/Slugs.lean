import Goca.Ca.Service
import Goca.Go.Decimal
import Goca.Lib.Alone
import Goca.Lib.Words
import Goca.Laws.Samples

/-!
# The slugs of authorities

`Slugify` keeps the words of a name, the runs of letters and digits, with single hyphens between them.
It drops the hyphens at the ends before it cuts the text off at 60 characters, so a cut right behind a
hyphen leaves one at the end. Such a slug is not of the form that the others have, and slugifying it
again drops the hyphen: both fail together, exactly where words of 59 characters are followed by more
(`wellFormed_iff`, `slugify_slugify_iff`).

`uniqueSlug` looks up the slug of a name and the same with the numbers from 2 to 98 behind it, and
returns the first that no authority uses. Where it finds none it returns the slug with the time behind
it and does not look that one up (`uniqueSlug_unused_iff`).
-/

set_option autoImplicit false

namespace Goca

open Goca.Ca (isSlugRune hyphenate slugify uniqueSlug uniqueSlugLoop)
open Goca.Store
open Interleave (Act Prog Sem)
open Words (Joined IsWord words collapse)

/-! ## Runes of a slug -/

/-- A letter or digit of a slug is an ASCII rune in lower case, and no blank. -/
theorem slugRune_facts {c : Char} (h : isSlugRune c = true ∨ c = '-') :
    Go.isASCII c = true ∧ c.toLower = c ∧ Go.isSpace c = false := by
  have hascii : c.toNat < 128 := by
    rcases h with h | rfl
    · simp only [isSlugRune, Bool.or_eq_true, Bool.and_eq_true, decide_eq_true_eq] at h
      rcases h with h | h
      · exact Nat.lt_of_le_of_lt h.2 (by decide)
      · exact Nat.lt_of_le_of_lt h.2 (by decide)
    · decide
  exact Go.ascii_induction (P := fun c => isSlugRune c = true ∨ c = '-' →
    Go.isASCII c = true ∧ c.toLower = c ∧ Go.isSpace c = false) (by decide +kernel) hascii h

theorem hyphenate_eq_collapse (inRun : Bool) (l : List Char) :
    hyphenate inRun l = collapse isSlugRune '-' inRun l := by
  induction l generalizing inRun with
  | nil => rfl
  | cons c l ih => simp only [hyphenate, collapse, ih]

/-! ## The words of a name -/

/-- What `Slugify` trims is the words of the name with hyphens between them. -/
theorem trim_hyphenate (l : List Char) :
    (Go.trim (.ofList (hyphenate false l)) "-").toList = ['-'].intercalate (words isSlugRune l) := by
  have hletter : ∀ c, isSlugRune c = true → "-".toList.contains c = false := by
    intro c hc
    have : c ≠ '-' := by
      rintro rfl
      exact absurd hc (by decide)
    simpa using this
  have hhyphen : "-".toList.contains '-' = true := by simp
  unfold Go.trim
  rw [String.toList_ofList, String.toList_ofList (l := hyphenate false l), Go.trimRunes_eq,
    hyphenate_eq_collapse]
  exact Words.trim_collapse hhyphen hletter l

/-- The text before the cut, where a name without words is `ca`. -/
theorem toList_default {out : String} {ws : List (List Char)} (hout : out.toList = ['-'].intercalate ws)
    (hws : ∀ w ∈ ws, IsWord isSlugRune w) :
    (if out = "" then "ca" else out).toList =
      ['-'].intercalate (if ws = [] then [['c', 'a']] else ws) := by
  cases ws with
  | nil =>
    rw [if_pos (String.toList_eq_nil_iff.mp hout), if_pos rfl]
    rfl
  | cons w ws =>
    have hne : out ≠ "" := by
      rw [ne_eq, ← String.toList_eq_nil_iff, hout, Words.intercalate_cons]
      simp [(hws w List.mem_cons_self).nonempty]
    rw [if_neg hne, if_neg (by simp), hout]

section Slugify

variable [Go.Runtime]

/-- The words of a name: its runs of letters and digits in lower case, or `ca` where it has none. -/
def slugWords (name : String) : List (List Char) :=
  if words isSlugRune (Go.toLower (Go.trimSpace name)).toList = [] then [['c', 'a']]
  else words isSlugRune (Go.toLower (Go.trimSpace name)).toList

theorem slugWords_ne_nil (name : String) : slugWords name ≠ [] := by
  unfold slugWords
  split
  · simp
  · assumption

theorem isWord_of_mem_slugWords {name : String} : ∀ w ∈ slugWords name, IsWord isSlugRune w := by
  intro w hw
  unfold slugWords at hw
  split at hw
  · obtain rfl := List.mem_singleton.mp hw
    exact ⟨by simp, by simp [isSlugRune]⟩
  · exact Words.isWord_of_mem_words hw

/-- **Slugify** joins the words of a name and cuts the text off. -/
theorem toList_slugify (name : String) :
    (slugify name).toList = (['-'].intercalate (slugWords name)).take 60 := by
  unfold slugify slugWords
  rw [← toList_default (trim_hyphenate _) fun w hw => Words.isWord_of_mem_words hw]
  exact String.toList_ofList

/-! ## Form and stability -/

/-- **A slug of the form** `[a-z0-9]+(-[a-z0-9]+)*` of at most 60 characters. -/
structure WellFormed (slug : String) : Prop where
  form : Joined isSlugRune '-' slug.toList
  length : slug.toList.length ≤ 60

/-- The name fits: none of its words are 59 characters with hyphens between them and have more words
behind them. -/
def Fits (name : String) : Prop :=
  ∀ front back, front ≠ [] → back ≠ [] → slugWords name = front ++ back →
    (['-'].intercalate front).length ≠ 59

theorem length_slugify (name : String) : (slugify name).toList.length ≤ 60 := by
  rw [toList_slugify]
  exact List.length_take_le _ _

/-- **A slug is well-formed exactly where the name fits.** -/
theorem wellFormed_iff (name : String) : WellFormed (slugify name) ↔ Fits name := by
  have hsep : isSlugRune '-' = false := by decide
  have hcut := Words.joined_take_iff hsep (slugWords_ne_nil name) isWord_of_mem_slugWords (n := 60)
    (by decide)
  rw [← toList_slugify] at hcut
  constructor
  · intro h front back hfront hback hsplit hlength
    exact hcut.mp h.form front back hfront hback hsplit (by rw [hlength])
  · intro h
    refine ⟨hcut.mpr ?_, length_slugify name⟩
    intro front back hfront hback hsplit hlength
    exact h front back hfront hback hsplit (by simpa using hlength)

/-- Lowering and trimming leave a text of letters and hyphens alone. -/
theorem toLower_trimSpace {s : String} (hs : ∀ c ∈ s.toList, isSlugRune c = true ∨ c = '-') :
    Go.toLower (Go.trimSpace s) = s := by
  rw [Go.trimSpace_eq_self fun c hc => (slugRune_facts (hs c hc)).2.2]
  unfold Go.toLower
  rw [List.map_congr_left (g := id), List.map_id, String.ofList_toList]
  intro c hc
  obtain ⟨hascii, hlower, _⟩ := slugRune_facts (hs c hc)
  simp [Go.lowerRune, hascii, hlower]

/-- **A well-formed slug is its own slug.** -/
theorem slugify_of_wellFormed {s : String} (h : WellFormed s) : slugify s = s := by
  obtain ⟨⟨c, rest, hhead, hc⟩, front, d, hlast, hd⟩ := h.form.ends
  have hne (c : Char) (hc : isSlugRune c = true) : (c == '-') = false := by
    rw [beq_eq_false_iff_ne]
    rintro rfl
    exact absurd hc (by decide)
  have hsep : ('-' == '-') = true := rfl
  have htrim := Words.trim_collapse (q := (· == '-')) hsep hne s.toList
  have hdrop : (s.toList.dropWhile (· == '-')) = s.toList := by
    rw [hhead, List.dropWhile_cons_of_neg (by simpa using hne c hc)]
  have hback : s.toList.rdropWhile (· == '-') = s.toList := by
    rw [hlast, List.rdropWhile_concat_neg _ _ _ (by simpa using hne d hd)]
  rw [(Words.collapse_joined (by decide) h.form false).1, hdrop, hback] at htrim
  have hwords : words isSlugRune s.toList ≠ [] := by
    intro hnil
    rw [hnil, hhead] at htrim
    cases htrim
  apply String.toList_inj.mp
  rw [toList_slugify]
  unfold slugWords
  rw [toLower_trimSpace (h.form.mem), if_neg hwords, ← htrim, List.take_of_length_le h.length]

/-- **The name fits where it is short enough.** -/
theorem fits_of_length {name : String} (h : name.toList.length ≤ 60) : Fits name := by
  have hlower : (Go.toLower (Go.trimSpace name)).toList.length ≤ name.toList.length := by
    unfold Go.toLower Go.trimSpace
    rw [String.toList_ofList, String.toList_ofList, List.length_map, Go.trimRunes_eq]
    exact Words.length_trim _ _
  have htotal : (['-'].intercalate (slugWords name)).length ≤ 60 := by
    unfold slugWords
    split
    · simp
    · exact (Words.length_words (by decide) _).trans (hlower.trans h)
  intro front back hfront hback hsplit hlength
  rw [hsplit, Words.intercalate_append hfront hback, List.length_append, hlength] at htotal
  obtain ⟨w, ws, rfl⟩ := List.exists_cons_of_ne_nil hback
  have hmem : w ∈ slugWords name := by
    rw [hsplit]
    simp
  have hpos := List.length_pos_iff.mpr (isWord_of_mem_slugWords w hmem).nonempty
  rw [List.length_cons, Words.intercalate_cons, List.length_append] at htotal
  omega

/-- **A slug is stable exactly where the name fits.** -/
theorem slugify_slugify_iff (name : String) :
    slugify (slugify name) = slugify name ↔ Fits name := by
  constructor
  · intro h
    rw [← wellFormed_iff, ← h, wellFormed_iff]
    exact fits_of_length (length_slugify name)
  · intro h
    exact slugify_of_wellFormed ((wellFormed_iff name).mpr h)

end Slugify

/-! ## Candidates -/

/-- A slug with a number behind it. -/
def numbered (base : String) (i : Nat) : String := base ++ "-" ++ toString i

/-- The slugs that `uniqueSlug` looks up, in order. -/
def candidates (base : String) : List String := base :: (List.range' 2 97).map (numbered base)

/-- The slug that it falls back on: the one with the time behind it. -/
def lastResort (base : String) (t : Go.Time) : String := base ++ "-" ++ toString (Ca.unix t)

/-- No authority uses the slug. -/
def Unused (t : CaTables) (slug : String) : Prop := ∀ c ∈ t.cas.rows, c.slug ≠ slug

instance (t : CaTables) (slug : String) : Decidable (Unused t slug) := by
  unfold Unused; infer_instance

/-- A lookup of the slug is answered, and finds no authority. -/
def Free (e : Stmt → Env) (t : CaTables) (slug : String) : Prop :=
  (e (.ca (.selectCABySlug slug))).fault = .none ∧ Unused t slug

instance (e : Stmt → Env) (t : CaTables) (slug : String) : Decidable (Free e t slug) := by
  unfold Free; infer_instance

section UniqueSlug

variable [Go.Runtime] {ε β : Type}

/-- What the statements do, each under an environment of its own. -/
def execEach : Sem sig (Stmt → Env) World := fun e w s => exec (e s) w s

omit [Go.Runtime] in
/-- What a lookup of a slug answers. -/
def found (e : Stmt → Env) (t : CaTables) (slug : String) : Except Go.Error CA :=
  row ((e (.ca (.selectCABySlug slug))).fault.answer (.ok (t.cas.rows.find? (·.slug == slug))))

omit [Go.Runtime] in
/-- **The error that `uniqueSlug` looks for** says that the slug is free; any other answer does
not. -/
theorem found_cases (e : Stmt → Env) (t : CaTables) (slug : String) :
    (Free e t slug ∧ found e t slug = .error .notFound) ∨
      (¬ Free e t slug ∧ ((∃ c, found e t slug = .ok c) ∨
        ∃ text, found e t slug = .error (.driver text))) := by
  unfold Free found
  cases (e (.ca (.selectCABySlug slug))).fault with
  | lost text => exact .inr ⟨by simp, .inr ⟨text, rfl⟩⟩
  | late text => exact .inr ⟨by simp, .inr ⟨text, rfl⟩⟩
  | none =>
    cases hrow : t.cas.rows.find? (·.slug == slug) with
    | none =>
      refine .inl ⟨⟨rfl, ?_⟩, rfl⟩
      intro c hc
      simpa using List.find?_eq_none.mp hrow c hc
    | some c =>
      refine .inr ⟨?_, .inl ⟨c, rfl⟩⟩
      rintro ⟨-, hunused⟩
      have hslug := List.find?_some hrow
      exact hunused c (List.mem_of_find?_eq_some hrow) (eq_of_beq hslug)

/-- What follows a lookup goes on from its answer. -/
theorem eval_lookup {e : Stmt → Env} {w : World} {slug : String}
    (he : 0 < (e (.ca (.selectCABySlug slug))).now) (k : Except Go.Error CA → Handler ε β) :
    ((getCABySlug slug).attempt >>= k).run.evalWith execEach e w =
      (k (found e w.ca slug)).run.evalWith execEach e w := by
  have hexec : execEach e w (.ca (.selectCABySlug slug)) =
      some ((e (.ca (.selectCABySlug slug))).fault.answer
        (.ok (w.ca.cas.rows.find? (·.slug == slug))), w) := by
    simp only [execEach, exec, if_pos he, CaTables.exec]
    cases (e (.ca (.selectCABySlug slug))).fault <;> rfl
  show (execEach e w (.ca (.selectCABySlug slug))).bind _ = _
  rw [hexec]
  rfl

/-- One turn of the loop. -/
theorem eval_uniqueSlugLoop_succ {e : Stmt → Env} (he : ∀ s, 0 < (e s).now) (w : World)
    (base : String) (fuel i : Nat) (slug : String) :
    (uniqueSlugLoop base (fuel + 1) i slug : Handler ε String).run.evalWith execEach e w =
      if Free e w.ca slug then some (.ok slug, w)
      else (uniqueSlugLoop base fuel (i + 1) (numbered base i) :
        Handler ε String).run.evalWith execEach e w := by
  conv_lhs => unfold uniqueSlugLoop
  rw [eval_lookup (he _)]
  rcases found_cases e w.ca slug with ⟨hfree, hfound⟩ | ⟨hfree, ⟨c, hfound⟩ | ⟨text, hfound⟩⟩
  · rw [hfound, if_pos hfree]
    rfl
  · rw [hfound, if_neg hfree]
    rfl
  · rw [hfound, if_neg hfree]
    rfl

/-- **The loop** returns the first candidate that is free, or falls back on the time. -/
theorem eval_uniqueSlugLoop {e : Stmt → Env} (he : ∀ s, 0 < (e s).now) (w : World) (base : String)
    (fuel i : Nat) (slug : String) :
    (uniqueSlugLoop base (fuel + 1) i slug : Handler ε String).run.evalWith execEach e w =
      some (.ok (((slug :: (List.range' i fuel).map (numbered base)).find?
        fun s => decide (Free e w.ca s)).getD (lastResort base (e (.host .now)).now)), w) := by
  induction fuel generalizing i slug with
  | zero =>
    rw [eval_uniqueSlugLoop_succ he]
    by_cases hfree : Free e w.ca slug
    · simp [hfree]
    · have hclock : execEach e w (.host .now) = some ((e (.host .now)).now, w) := by
        simp only [execEach, exec, if_pos (he _)]
        rfl
      rw [if_neg hfree]
      simp only [List.range'_zero, List.map_nil, List.find?_cons, hfree, decide_false,
        List.find?_nil, Option.getD_none]
      show (execEach e w (.host .now)).bind _ = _
      rw [hclock]
      rfl
  | succ fuel ih =>
    rw [eval_uniqueSlugLoop_succ he]
    by_cases hfree : Free e w.ca slug
    · simp [hfree]
    · rw [if_neg hfree, ih]
      simp [hfree, List.range'_succ]

/-- **`uniqueSlug` returns an unused slug exactly where** one of its candidates is free, or the time
makes one that nobody uses. -/
theorem uniqueSlug_unused_iff (name : String) {e : Stmt → Env} (he : ∀ s, 0 < (e s).now)
    (w : World) : ∃ slug,
    (uniqueSlug name : Handler ε String).run.evalWith execEach e w = some (.ok slug, w) ∧
      (Unused w.ca slug ↔ (∃ s ∈ candidates (slugify name), Free e w.ca s) ∨
        Unused w.ca (lastResort (slugify name) (e (.host .now)).now)) := by
  refine ⟨_, eval_uniqueSlugLoop he w (slugify name) 97 2 (slugify name), ?_⟩
  change Unused w.ca (((candidates (slugify name)).find? _).getD _) ↔ _
  cases hfirst : (candidates (slugify name)).find? fun s => decide (Free e w.ca s) with
  | none =>
    have hnone : ¬ ∃ s ∈ candidates (slugify name), Free e w.ca s := by
      rintro ⟨s, hs, hfree⟩
      exact absurd hfree (by simpa using List.find?_eq_none.mp hfirst s hs)
    simp [hnone]
  | some s =>
    have hfree : Free e w.ca s := by simpa using List.find?_some hfirst
    rw [Option.getD_some]
    exact iff_of_true hfree.2 (.inl ⟨s, List.mem_of_find?_eq_some hfirst, hfree⟩)

/-- The words of a name with hyphens between them, cut off after 60 characters. -/
def cutWords (name : String) : String := .ofList ((['-'].intercalate (slugWords name)).take 60)

theorem slugify_eq_cutWords (name : String) : slugify name = cutWords name := by
  apply String.toList_inj.mp
  rw [toList_slugify, cutWords, String.toList_ofList]

/-- **Slugs are well formed, stable and fresh**: the slug of the name is of the form and its own
slug, and `uniqueSlug` returns one that no authority uses. -/
structure SlugsHold (name : String) (e : Stmt → Env) (w : World) : Prop where
  wellFormed : WellFormed (slugify name)
  stable : slugify (slugify name) = slugify name
  fresh : ∃ slug, (uniqueSlug name : Handler Go.Error String).run.evalWith execEach e w =
    some (.ok slug, w) ∧ Unused w.ca slug

/-- There is room for the name: one of the first 98 candidates is free, or no authority uses the
words with the time behind them. -/
def Room (name : String) (e : Stmt → Env) (w : World) : Prop :=
  (∃ s ∈ candidates (cutWords name), Free e w.ca s) ∨
    Unused w.ca (lastResort (cutWords name) (e (.host .now)).now)

/-- **The slugs of authorities hold exactly where the name fits and there is room for it.** Also
where they do not, the slug of a name is not empty and has at most 60 characters. -/
theorem slugsHold_iff (name : String) {e : Stmt → Env} (he : ∀ s, 0 < (e s).now) (w : World) :
    (SlugsHold name e w ↔ Fits name ∧ Room name e w) ∧
      slugify name ≠ "" ∧ (slugify name).toList.length ≤ 60 := by
  obtain ⟨slug, hrun, hunused⟩ := uniqueSlug_unused_iff (ε := Go.Error) name he w
  rw [slugify_eq_cutWords] at hunused
  refine ⟨⟨?_, ?_⟩, ?_, length_slugify name⟩
  · intro h
    refine ⟨(wellFormed_iff name).mp h.wellFormed, ?_⟩
    obtain ⟨slug', hrun', hfresh⟩ := h.fresh
    obtain rfl : slug = slug' := by
      rw [hrun] at hrun'
      simpa using hrun'
    exact hunused.mp hfresh
  · rintro ⟨hfits, hroom⟩
    exact ⟨(wellFormed_iff name).mpr hfits, (slugify_slugify_iff name).mpr hfits, slug, hrun,
      hunused.mpr hroom⟩
  · rw [ne_eq, ← String.toList_eq_nil_iff, toList_slugify, List.take_eq_nil_iff]
    obtain ⟨v, vs, hsplit⟩ := List.exists_cons_of_ne_nil (slugWords_ne_nil name)
    have hv := (isWord_of_mem_slugWords v (hsplit ▸ List.mem_cons_self)).nonempty
    rw [hsplit, Words.intercalate_cons]
    simp [hv]

end UniqueSlug

/-! ## A hyphen that is left, and a slug that is taken -/

open Samples

section Installed

attribute [local instance] Go.asciiRuntime

/-- A moment at which every statement is answered. -/
def answering : Stmt → Env := fun _ => { now := 63844761600 }

theorem answering_now (s : Stmt) : 0 < (answering s).now := by
  show (0 : Int) < 63844761600
  decide

/-- Beside a root authority another one gets a slug that holds. -/
theorem acme_slugsHold : SlugsHold "Acme Root CA" answering (installation root []) := by
  have hfits : Fits "Acme Root CA" := fits_of_length (by decide)
  have hunused : Unused (installation root []).ca (cutWords "Acme Root CA") := by
    decide +kernel
  have hfree : Free answering (installation root []).ca (cutWords "Acme Root CA") := ⟨rfl, hunused⟩
  exact (slugsHold_iff "Acme Root CA" answering_now _).1.mpr
    ⟨hfits, .inl ⟨_, List.mem_cons_self, hfree⟩⟩

/-- A word of 59 letters with one more behind it. -/
def longName : String := .ofList (List.replicate 59 'a' ++ [' ', 'b'])

theorem not_fits_longName : ¬ Fits longName := by
  have hwords : slugWords longName = [List.replicate 59 'a', ['b']] := by decide +kernel
  intro h
  exact h [List.replicate 59 'a'] [['b']] (by simp) (by simp) hwords (by simp)

/-- A table with one authority for every slug. -/
def authorities (slugs : List String) : Sql.Table CA :=
  slugs.foldr (fun slug t => t.insert (fun id => { root with id, slug }) fun _ => rfl) .empty

theorem used_in_authorities {slugs : List String} {slug : String} (h : slug ∈ slugs) :
    ∃ c ∈ (authorities slugs).rows, c.slug = slug := by
  induction slugs with
  | nil => cases h
  | cons s slugs ih =>
    have hrows : (authorities (s :: slugs)).rows = (authorities slugs).rows ++
        [{ root with id := (authorities slugs).seq + 1, slug := s }] := rfl
    rw [hrows]
    rcases List.mem_cons.mp h with rfl | h
    · exact ⟨_, List.mem_append_right _ (List.mem_singleton_self _), rfl⟩
    · obtain ⟨c, hc, hslug⟩ := ih h
      exact ⟨c, List.mem_append_left _ hc, hslug⟩

/-- A store in which every slug that `uniqueSlug` may return for the name `ca` is taken. -/
def crowded : World :=
  { World.empty .empty with
    ca := {
      cas := authorities (lastResort "ca" (answering (.host .now)).now :: candidates "ca")
      certificates := .empty
      caRevocations := .empty } }

/-- **Slugs are not always well formed, stable and fresh.** Cut off behind its 59 letters, the slug of
the long name ends with a hyphen, which slugifying it again drops. In the crowded store `uniqueSlug`
returns a slug that an authority has. -/
theorem slugs_broken :
    (¬ WellFormed (slugify longName) ∧ slugify (slugify longName) ≠ slugify longName) ∧
      ¬ ∃ slug, (uniqueSlug "ca" : Handler Go.Error String).run.evalWith execEach answering crowded =
        some (.ok slug, crowded) ∧ Unused crowded.ca slug := by
  have htaken {slug : String}
      (h : slug ∈ lastResort "ca" (answering (.host .now)).now :: candidates "ca") :
      ¬ Unused crowded.ca slug := by
    obtain ⟨c, hc, rfl⟩ := used_in_authorities h
    exact fun hunused => hunused c hc rfl
  refine ⟨⟨fun h => not_fits_longName ((wellFormed_iff _).mp h),
    fun h => not_fits_longName ((slugify_slugify_iff _).mp h)⟩, ?_⟩
  rintro ⟨slug, hrun, hunused⟩
  obtain ⟨slug', hrun', hiff⟩ := uniqueSlug_unused_iff (ε := Go.Error) "ca" answering_now crowded
  have hca : slugify "ca" = "ca" := by decide +kernel
  obtain rfl : slug = slug' := by
    rw [hrun] at hrun'
    simpa using hrun'
  rw [hca] at hiff
  rcases hiff.mp hunused with ⟨s, hs, hfree⟩ | hlast
  · exact htaken (List.mem_cons_of_mem _ hs) hfree.2
  · exact htaken List.mem_cons_self hlast

end Installed

end Goca
