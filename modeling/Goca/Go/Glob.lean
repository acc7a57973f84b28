import Goca.Go.Path
import Goca.Lib.Glob

/-!
# What path.Match matches

A pattern of package path read once, ahead of any name: its blocks, each the conditions its chunk
puts on the runes it takes. On names without a slash `path.Match` is the language of that pattern
(`pathMatch_iff`), though it checks chunk by chunk and never goes back. From there
`pathMatch_wildcard_iff`: which names a pattern that matches a wildcard identifier, star and all,
matches in its place.
-/

set_option autoImplicit false

namespace Go

open Glob (Block Pattern strip)

/-! ## Reading a chunk -/

/-- Whether a rune is in one of the ranges. -/
def inRanges (ranges : List (Char × Char)) (c : Char) : Bool :=
  ranges.any fun q => decide (q.1 ≤ c ∧ c ≤ q.2)

/-- A class looks at its rune only to compare it with its ranges. -/
theorem classRanges_reads (fuel : Nat) (any : Bool) (chunk : List Char) :
    (∃ ranges rest, ∀ r found, classRanges r fuel found any chunk =
        .ok (found || Option.any (inRanges ranges) r, rest)) ∨
      ∃ e, ∀ r found, classRanges r fuel found any chunk = .error e := by
  induction fuel generalizing any chunk with
  | zero => exact .inr ⟨_, fun _ _ => rfl⟩
  | succ fuel ih =>
    by_cases hclose : any = true ∧ ∃ rest, chunk = ']' :: rest
    · obtain ⟨rfl, rest, rfl⟩ := hclose
      left
      refine ⟨[], rest, ?_⟩
      intro r found
      cases r <;> simp [classRanges, inRanges]
    · have hopen (rest : List Char) (h : chunk = ']' :: rest) (hany : any = true) : False :=
        hclose ⟨hany, rest, h⟩
      cases hlo : getEsc chunk with
      | error e =>
        right
        refine ⟨e, ?_⟩
        intro r found
        rw [classRanges, hlo]
        exact hopen
      | ok q =>
        obtain ⟨lo, rest⟩ := q
        by_cases hdash : ∃ rest', rest = '-' :: rest'
        · obtain ⟨rest', rfl⟩ := hdash
          cases hhi : getEsc rest' with
          | error e =>
            right
            refine ⟨e, ?_⟩
            intro r found
            rw [classRanges, hlo]
            · simp only [hhi]
            · exact hopen
          | ok q =>
            obtain ⟨hi, after⟩ := q
            rcases ih true after with ⟨ranges, end', hok⟩ | ⟨e, herror⟩
            · left
              refine ⟨(lo, hi) :: ranges, end', ?_⟩
              intro r found
              rw [classRanges, hlo]
              · simp only [hhi, hok]
                cases r <;> simp [inRanges, Bool.or_assoc]
              · exact hopen
            · right
              refine ⟨e, ?_⟩
              intro r found
              rw [classRanges, hlo]
              · simp only [hhi, herror]
              · exact hopen
        · have hsingle (lo' : Char) (rest' : List Char)
              (h : (Except.ok (lo, rest) : Except BadPattern _) = .ok (lo', '-' :: rest')) :
              False := by
            cases h
            exact hdash ⟨_, rfl⟩
          have hone (c : Char) : decide (lo ≤ c ∧ c ≤ lo) = decide (lo = c) := by
            rw [decide_eq_decide]
            constructor
            · intro h
              exact Char.le_antisymm h.1 h.2
            · rintro rfl
              exact ⟨Char.le_refl _, Char.le_refl _⟩
          rcases ih true rest with ⟨ranges, end', hok⟩ | ⟨e, herror⟩
          · left
            refine ⟨(lo, lo) :: ranges, end', ?_⟩
            intro r found
            rw [classRanges, hlo]
            · split
              next h => cases h
              next h => exact (hsingle _ _ h).elim
              next h =>
                cases h
                rw [hok]
                cases r <;> simp [inRanges, Bool.or_assoc, ← hone]
            · exact hopen
          · right
            refine ⟨e, ?_⟩
            intro r found
            rw [classRanges, hlo]
            · split
              next h => cases h
              next h => exact (hsingle _ _ h).elim
              next h =>
                cases h
                exact herror _ _
            · exact hopen

/-- The rest of the name behind one rune that `p` accepts. -/
theorem bind_strip_cons (p : Char → Bool) (b : Block Char) (s : Option (List Char)) :
    (s.bind (strip [p])).bind (strip b) = s.bind (strip (p :: b)) := by
  rcases s with _ | (_ | ⟨c, s⟩)
  · rfl
  · rfl
  · simp only [Option.bind_some, strip]
    by_cases hp : p c = true
    · simp [hp]
    · simp [hp]

/-- The rest of the name behind one literal rune. -/
theorem literal_eq_bind (l : Char) (s : Option (List Char)) :
    (match s with
      | some (d :: t) => if l = d then some t else none
      | _ => none) = s.bind (strip [fun d => l == d]) := by
  rcases s with _ | (_ | ⟨d, s⟩)
  · rfl
  · rfl
  · by_cases hd : l = d <;> simp [strip, hd]

/-- A rune of the chunk with no meaning of its own takes that rune. -/
theorem matchChunk_literal (fuel : Nat) (c : Char) (chunk : List Char) (s : Option (List Char))
    (hclass : c ≠ '[') (hany : c ≠ '?') (hescape : c ≠ '\\') :
    matchChunk (fuel + 1) (c :: chunk) s =
      matchChunk fuel chunk (s.bind (strip [fun d => c == d])) := by
  rw [← literal_eq_bind]
  conv_lhs => unfold matchChunk
  split
  · next h => cases h
  · next h _ => cases h
  · next h =>
    cases h
    exact absurd rfl hclass
  · next h =>
    cases h
    exact absurd rfl hany
  · next hfuel h =>
    cases hfuel
    cases h
    split
    next heq =>
    split at heq
    · exact absurd rfl hescape
    · exact absurd rfl hescape
    · cases heq
      rfl

/-- A class takes a rune by its ranges, which are read first. -/
theorem matchChunk_class (fuel : Nat) (chunk : List Char) : ∃ negated body, ∀ s,
    matchChunk (fuel + 1) ('[' :: chunk) s =
      match classRanges (s.bind List.head?) (body.length + 1) false false body with
      | .error e => .error e
      | .ok (found, rest) => matchChunk fuel rest
          (if (s.bind List.head?).isNone || found == negated then none else s.map List.tail) :=
  ⟨_, _, fun _ => rfl⟩

/-- **A chunk is malformed, whatever the name, or takes its runes one condition each.** -/
theorem matchChunk_reads (fuel : Nat) (chunk : List Char) :
    (∃ b : Block Char, (b = [] → chunk = []) ∧
        ∀ s, matchChunk fuel chunk s = .ok (s.bind (strip b))) ∨
      ∃ e, ∀ s, matchChunk fuel chunk s = .error e := by
  induction fuel generalizing chunk with
  | zero =>
    cases chunk with
    | nil =>
      left
      refine ⟨[], fun _ => rfl, ?_⟩
      intro s
      cases s <;> rfl
    | cons c chunk => exact .inr ⟨_, fun _ => rfl⟩
  | succ fuel ih =>
    -- one more condition `p` in front of what the rest of the chunk takes
    have hcons (c : Char) (chunk rest : List Char) (p : Char → Bool)
        (h : ∀ s, matchChunk (fuel + 1) (c :: chunk) s =
          matchChunk fuel rest (s.bind (strip [p]))) :
        (∃ b : Block Char, (b = [] → c :: chunk = []) ∧
            ∀ s, matchChunk (fuel + 1) (c :: chunk) s = .ok (s.bind (strip b))) ∨
          ∃ e, ∀ s, matchChunk (fuel + 1) (c :: chunk) s = .error e := by
      rcases ih rest with ⟨b, -, hok⟩ | ⟨e, herror⟩
      · left
        refine ⟨p :: b, fun hb => absurd hb (List.cons_ne_nil p b), ?_⟩
        intro s
        rw [h, hok, bind_strip_cons]
      · right
        exact ⟨e, fun s => (h s).trans (herror _)⟩
    cases chunk with
    | nil =>
      left
      refine ⟨[], fun _ => rfl, ?_⟩
      intro s
      cases s <;> rfl
    | cons c chunk =>
      by_cases hclass : c = '['
      · subst hclass
        obtain ⟨negated, body, hshape⟩ := matchChunk_class fuel chunk
        rcases classRanges_reads (body.length + 1) false body with
          ⟨ranges, rest, hok⟩ | ⟨e, herror⟩
        · apply hcons '[' chunk rest fun c => inRanges ranges c != negated
          intro s
          rw [hshape, hok]
          rcases s with _ | (_ | ⟨c, s⟩)
          · rfl
          · rfl
          · by_cases hc : inRanges ranges c = negated <;> simp [strip, hc]
        · right
          refine ⟨e, ?_⟩
          intro s
          rw [hshape, herror]
      · by_cases hany : c = '?'
        · subst hany
          apply hcons '?' chunk chunk fun c => c != '/'
          intro s
          have hs : s.bind (strip [fun c => c != '/']) = match s with
              | some (c :: t) => if c = '/' then none else some t
              | _ => none := by
            rcases s with _ | (_ | ⟨c, s⟩)
            · rfl
            · rfl
            · by_cases hc : c = '/' <;> simp [strip, hc]
          rw [hs]
          rfl
        · by_cases hescape : c = '\\'
          · subst hescape
            cases chunk with
            | nil => exact .inr ⟨_, fun _ => rfl⟩
            | cons l rest =>
              apply hcons '\\' (l :: rest) rest fun d => l == d
              intro s
              rw [← literal_eq_bind]
              rfl
          · apply hcons c chunk chunk fun d => c == d
            intro s
            exact matchChunk_literal fuel c chunk s hclass hany hescape

/-! ## Reading a pattern -/

/-- A chunk ends with the pattern or before a star. -/
theorem drop_chunkLength (inrange : Bool) (body : List Char) :
    chunkLength inrange body ≤ body.length ∧
      (body.drop (chunkLength inrange body) = [] ∨
        ∃ rest, body.drop (chunkLength inrange body) = '*' :: rest) := by
  fun_induction chunkLength inrange body with
  | case1 => simp
  | case2 => simp
  | case3 inrange c rest ih => simpa [Nat.add_comm 2] using ih
  | case4 inrange rest ih => simpa [Nat.add_comm 1] using ih
  | case5 inrange rest ih => simpa [Nat.add_comm 1] using ih
  | case6 rest ih => simpa [Nat.add_comm 1] using ih
  | case7 inrange rest h => simp
  | case8 inrange c rest _ _ _ _ _ ih => simpa [Nat.add_comm 1] using ih

/-- A chunk takes every rune that is not a star. -/
theorem chunkLength_pos (inrange : Bool) {c : Char} (hc : c ≠ '*') (body : List Char) :
    0 < chunkLength inrange (c :: body) := by
  unfold chunkLength
  split
  all_goals first | omega | simp_all

/-- **One chunk of a pattern**: it takes at least one rune of it, what follows begins with a star,
and only a last star has nothing behind it. -/
theorem scanChunk_spec {pattern chunk rest : List Char} {star : Bool} (hne : pattern ≠ [])
    (h : scanChunk pattern = (star, chunk, rest)) :
    rest.length < pattern.length ∧ (rest = [] ∨ rest.head? = some '*') ∧
      (chunk = [] → star = true ∧ rest = []) ∧ (star = true ↔ pattern.head? = some '*') := by
  simp only [scanChunk, Prod.mk.injEq] at h
  obtain ⟨rfl, rfl, rfl⟩ := h
  cases pattern with
  | nil => exact absurd rfl hne
  | cons c pattern =>
    obtain ⟨body, hbody⟩ : ∃ body, (c :: pattern).dropWhile (· == '*') = body := ⟨_, rfl⟩
    rw [hbody]
    obtain ⟨-, hdrop⟩ := drop_chunkLength false body
    have hhead : body = [] ∨ 0 < chunkLength false body := by
      cases hb : body with
      | nil => exact .inl rfl
      | cons d body =>
        right
        apply chunkLength_pos
        rintro rfl
        have hnot := List.head?_dropWhile_not (· == '*') (c :: pattern)
        rw [hbody, hb] at hnot
        simp at hnot
    have hshorter : (body.drop (chunkLength false body)).length < (c :: pattern).length := by
      rw [List.length_drop]
      by_cases hc : c = '*'
      · have hle : body.length ≤ pattern.length := by
          rw [← hbody, hc, List.dropWhile_cons_of_pos (by simp)]
          exact (List.dropWhile_suffix _).length_le
        simp only [List.length_cons]
        omega
      · rw [List.dropWhile_cons_of_neg (by simpa using hc)] at hbody
        subst hbody
        have := chunkLength_pos false hc pattern
        simp only [List.length_cons]
        omega
    refine ⟨hshorter, ?_, ?_, by simp⟩
    · rcases hdrop with hdrop | ⟨r, hdrop⟩
      · exact .inl hdrop
      · right
        rw [hdrop]
        rfl
    · intro hchunk
      have hnil : body = [] := by
        rcases hhead with hnil | hpos
        · exact hnil
        · rw [List.take_eq_nil_iff] at hchunk
          rcases hchunk with hzero | hnil
          · omega
          · exact hnil
      subst hnil
      refine ⟨?_, rfl⟩
      by_cases hc : c = '*'
      · simp [hc]
      · rw [List.dropWhile_cons_of_neg (by simpa using hc)] at hbody
        cases hbody

/-- **A pattern is read as its blocks**, each with whether stars stand before it. -/
inductive Reads : List Char → Pattern Char → Prop
  | nil : Reads [] []
  | cons {pattern chunk rest : List Char} {star : Bool} {b : Block Char} {p : Pattern Char} :
      pattern ≠ [] → scanChunk pattern = (star, chunk, rest) →
      (∀ s, matchChunk chunk.length chunk s = .ok (s.bind (strip b))) →
      (b = [] → chunk = []) → Reads rest p → Reads pattern ((star, b) :: p)

/-- Behind its first chunk a pattern consists of blocks behind stars. -/
theorem Reads.starred {pattern : List Char} {p : Pattern Char} (h : Reads pattern p)
    (hstar : pattern = [] ∨ pattern.head? = some '*') : Glob.Starred p := by
  induction h with
  | nil =>
    intro e he
    cases he
  | cons hne hscan _ _ _ ih =>
    obtain ⟨-, hrest, -, hhead⟩ := scanChunk_spec hne hscan
    intro e he
    rcases List.mem_cons.mp he with rfl | he
    · rcases hstar with hnil | hstar
      · exact absurd hnil hne
      · exact hhead.mpr hstar
    · exact ih hrest e he

/-- The blocks behind the first all stand behind stars, so the search is complete for a pattern. -/
theorem Reads.tail_starred {pattern : List Char} {p : Pattern Char} (h : Reads pattern p) :
    Glob.Starred p.tail := by
  cases h with
  | nil =>
    intro e he
    cases he
  | cons hne hscan _ _ hrest => exact hrest.starred (scanChunk_spec hne hscan).2.1

/-- Only the last block that is read, behind a star, takes nothing. -/
theorem Reads.tidy {pattern : List Char} {p : Pattern Char} (h : Reads pattern p) :
    Glob.Tidy p := by
  induction h with
  | nil =>
    intro before b after hsplit
    cases before <;> cases hsplit
  | @cons pattern chunk rest star b p hne hscan _ hb hrest ih =>
    intro before b' after hsplit hempty
    cases before with
    | nil =>
      obtain ⟨rfl, rfl⟩ := List.cons.inj hsplit
      obtain ⟨hstar, rfl⟩ := (scanChunk_spec hne hscan).2.2.1 (hb hempty)
      refine ⟨hstar, ?_⟩
      cases hrest with
      | nil => rfl
      | cons hne => exact absurd rfl hne
    | cons b₀ before =>
      exact ih before b' after (List.cons.inj hsplit).2 hempty

/-- The places a star may skip to in a name without a slash: all its suffixes. -/
theorem starSuffixes_eq {name : List Char} (h : '/' ∉ name) :
    name :: starSuffixes name = name.tails := by
  induction name with
  | nil => rfl
  | cons c name ih =>
    rw [List.mem_cons, not_or] at h
    have hc : c ≠ '/' := fun hc => h.1 hc.symm
    rw [starSuffixes, if_neg hc, ih h.2]
    rfl

/-- The first place where a chunk matches is the first fit of its block. -/
theorem firstMatch_eq {chunk : List Char} {b : Block Char}
    (hread : ∀ s, matchChunk chunk.length chunk s = .ok (s.bind (strip b))) (last : Bool)
    (ss : List (List Char)) : firstMatch chunk last ss = .ok (Glob.firstFit b last ss) := by
  induction ss with
  | nil => rfl
  | cons s ss ih =>
    rw [firstMatch, hread, Option.bind_some, Glob.firstFit, List.findSome?_cons]
    cases hs : strip b s with
    | none => exact ih
    | some t =>
      by_cases hlast : (last && !t.isEmpty) = true
      · have hfilter : Option.filter (fun t => !last || t.isEmpty) (some t) = none := by
          simp_all
        simp only [hlast, hfilter, if_true]
        exact ih
      · have hfilter : Option.filter (fun t => !last || t.isEmpty) (some t) = some t := by
          cases last <;> simp_all
        simp only [hlast, hfilter]
        rfl

/-- What a block leaves of a name is an end of it. -/
theorem mem_of_firstFit {b : Block Char} {last star : Bool} {name t : List Char} {c : Char}
    (h : Glob.firstFit b last (Glob.places star name) = some t) (hc : c ∈ t) : c ∈ name := by
  obtain ⟨before, v, after, hss, hv, -, -⟩ := Glob.firstFit_eq_some h
  obtain ⟨u, rfl, -⟩ := Glob.mem_places.mp (show v ∈ Glob.places star name by simp [hss])
  obtain ⟨-, rfl⟩ := Glob.strip_eq_some hv
  exact List.mem_append_right u (List.mem_of_mem_drop hc)

/-- Checking what is left of a pattern never makes a match of it. -/
theorem checkRest_ne (fuel : Nat) (pattern : List Char) : checkRest fuel pattern ≠ .ok true := by
  induction fuel generalizing pattern with
  | zero =>
    intro h
    cases h
  | succ fuel ih =>
    cases pattern with
    | nil =>
      intro h
      cases h
    | cons c pattern =>
      rw [checkRest]
      · dsimp only
        split
        next => simp
        next => exact ih _
      · exact List.cons_ne_nil c pattern

/-- A pattern is read as no blocks only where nothing is left of it. -/
theorem Reads.isEmpty_eq {pattern : List Char} {p : Pattern Char} (h : Reads pattern p) :
    p.isEmpty = pattern.isEmpty := by
  cases h with
  | nil => rfl
  | cons hne =>
    cases pattern with
    | nil => exact absurd rfl hne
    | cons c pattern => rfl

/-- One round of the loop: a last star takes everything, any other chunk is looked for. -/
theorem matchLoop_succ (fuel : Nat) {pattern chunk rest name : List Char} {star : Bool}
    (hne : pattern ≠ []) (hscan : scanChunk pattern = (star, chunk, rest)) (hname : '/' ∉ name) :
    matchLoop (fuel + 1) pattern name =
      if star && chunk.isEmpty then .ok (!name.contains '/') else
        match firstMatch chunk rest.isEmpty (Glob.places star name) with
        | .error e => .error e
        | .ok (some t) => matchLoop fuel rest t
        | .ok none => checkRest rest.length rest := by
  have hplaces : (if star then name :: starSuffixes name else [name]) =
      Glob.places star name := by
    rw [starSuffixes_eq hname, Glob.places]
  rw [← hplaces]
  cases pattern with
  | nil => exact absurd rfl hne
  | cons c pattern =>
    conv_lhs => unfold matchLoop
    generalize scanChunk (c :: pattern) = scanned at hscan
    subst hscan
    rfl

/-- The end of a pattern matches the end of a name. -/
theorem matchLoop_nil (fuel : Nat) (name : List Char) :
    matchLoop fuel [] name = .ok name.isEmpty := by
  cases fuel <;> rfl

/-- A round for a well formed chunk: the search gives the block its first place. -/
theorem matchLoop_round (fuel : Nat) {pattern chunk rest name : List Char} {star : Bool}
    {b : Block Char} (hne : pattern ≠ []) (hscan : scanChunk pattern = (star, chunk, rest))
    (hread : ∀ s, matchChunk chunk.length chunk s = .ok (s.bind (strip b)))
    (hname : '/' ∉ name) :
    matchLoop (fuel + 1) pattern name = .ok true ↔
      ∃ t, Glob.firstFit b rest.isEmpty (Glob.places star name) = some t ∧
        matchLoop fuel rest t = .ok true := by
  obtain ⟨-, -, hlast, -⟩ := scanChunk_spec hne hscan
  rw [matchLoop_succ fuel hne hscan hname]
  by_cases htrailing : (star && chunk.isEmpty) = true
  · rw [if_pos htrailing]
    rw [Bool.and_eq_true, List.isEmpty_iff] at htrailing
    obtain ⟨rfl, rfl⟩ := htrailing
    obtain rfl : rest = [] := (hlast rfl).2
    have hb : b = [] := by
      have h : (.ok (some []) : Except BadPattern _) = .ok (strip b []) := hread (some [])
      cases b with
      | nil => rfl
      | cons p b => cases h
    have hfind : Glob.find [(true, ([] : Block Char))] name = true := by
      rw [Glob.find_iff_matches]
      · simpa using (Glob.Matches.here (s := []) (t := []) rfl .nil).prepend name
      · intro e he
        cases he
    rw [hb]
    simp only [Glob.find, List.isEmpty_nil] at hfind
    constructor
    · intro _
      split at hfind
      next t ht =>
        refine ⟨t, ht, ?_⟩
        rw [matchLoop_nil, hfind]
      next => cases hfind
    · intro _
      simp [hname]
  · rw [if_neg htrailing, firstMatch_eq hread]
    cases Glob.firstFit b rest.isEmpty (Glob.places star name) with
    | none => simp [checkRest_ne]
    | some t => simp

/-- A malformed chunk is found out at the first place. -/
theorem firstMatch_error {chunk : List Char} {e : BadPattern}
    (herror : ∀ s, matchChunk chunk.length chunk s = .error e) (last star : Bool)
    (name : List Char) : firstMatch chunk last (Glob.places star name) = .error e := by
  obtain ⟨s, ss, hss⟩ : ∃ s ss, Glob.places star name = s :: ss := by
    cases star with
    | false => exact ⟨name, [], rfl⟩
    | true =>
      cases name with
      | nil => exact ⟨[], [], rfl⟩
      | cons c name => exact ⟨c :: name, name.tails, rfl⟩
  rw [hss, firstMatch, herror]

/-- **The loop of path.Match is the search** for the pattern that is read, on names without a
slash; a pattern that cannot be read matches nothing. -/
theorem matchLoop_iff (fuel : Nat) {pattern name : List Char} (hfuel : pattern.length ≤ fuel)
    (hname : '/' ∉ name) :
    matchLoop fuel pattern name = .ok true ↔
      ∃ p, Reads pattern p ∧ Glob.find p name = true := by
  have hnil (fuel : Nat) (name : List Char) :
      matchLoop fuel [] name = .ok true ↔ ∃ p, Reads [] p ∧ Glob.find p name = true := by
    rw [matchLoop_nil]
    constructor
    · intro h
      exact ⟨[], .nil, Except.ok.inj h⟩
    · rintro ⟨p, hp, hfind⟩
      cases hp with
      | nil => exact congrArg _ hfind
      | cons hne => exact absurd rfl hne
  induction fuel generalizing pattern name with
  | zero =>
    obtain rfl : pattern = [] := List.length_eq_zero_iff.mp (Nat.le_zero.mp hfuel)
    exact hnil 0 name
  | succ fuel ih =>
    by_cases hne : pattern = []
    · subst hne
      exact hnil (fuel + 1) name
    · obtain ⟨star, chunk, rest, hscan⟩ : ∃ star chunk rest,
        scanChunk pattern = (star, chunk, rest) := ⟨_, _, _, rfl⟩
      obtain ⟨hlen, -, hlast, -⟩ := scanChunk_spec hne hscan
      have hrest (b : Block Char) (t : List Char)
          (ht : Glob.firstFit b rest.isEmpty (Glob.places star name) = some t) :
          matchLoop fuel rest t = .ok true ↔ ∃ p, Reads rest p ∧ Glob.find p t = true := by
        apply ih
        · omega
        · exact fun hslash => hname (mem_of_firstFit ht hslash)
      constructor
      · intro h
        rcases matchChunk_reads chunk.length chunk with ⟨b, hb, hread⟩ | ⟨e, herror⟩
        · obtain ⟨t, ht, hloop⟩ := (matchLoop_round fuel hne hscan hread hname).mp h
          obtain ⟨p, hp, hfind⟩ := (hrest b t ht).mp hloop
          refine ⟨(star, b) :: p, .cons hne hscan hread hb hp, ?_⟩
          rw [Glob.find, hp.isEmpty_eq, ht]
          exact hfind
        · have hchunk : ¬(star && chunk.isEmpty) = true := by
            rw [Bool.and_eq_true, List.isEmpty_iff]
            rintro ⟨-, rfl⟩
            have hok : (.ok none : Except BadPattern _) = .error e := herror none
            cases hok
          rw [matchLoop_succ fuel hne hscan hname, if_neg hchunk, firstMatch_error herror] at h
          cases h
      · rintro ⟨p, hp, hfind⟩
        cases hp with
        | nil => exact absurd rfl hne
        | cons _ hscan' hread _ hp =>
          rw [hscan] at hscan'
          cases hscan'
          rw [matchLoop_round fuel hne hscan hread hname]
          rw [Glob.find, hp.isEmpty_eq] at hfind
          split at hfind
          next t ht => exact ⟨t, ht, (hrest _ t ht).mpr ⟨_, hp, hfind⟩⟩
          next => cases hfind

/-- Two readings of a pattern search alike. -/
theorem Reads.find_eq {pattern : List Char} {p q : Pattern Char} (hp : Reads pattern p)
    (hq : Reads pattern q) (name : List Char) : Glob.find p name = Glob.find q name := by
  induction hp generalizing q name with
  | nil =>
    cases hq with
    | nil => rfl
    | cons hne => exact absurd rfl hne
  | @cons pattern chunk rest star b p hne hscan hread _ hrest ih =>
    cases hq with
    | nil => exact absurd rfl hne
    | @cons _ _ _ _ b' q _ hscan' hread' _ hrest' =>
      rw [hscan] at hscan'
      cases hscan'
      have hstrip : strip b = strip b' := by
        funext s
        have h := (hread (some s)).symm.trans (hread' (some s))
        exact Except.ok.inj h
      have hfit : Glob.firstFit b = Glob.firstFit b' := by
        funext last ss
        rw [Glob.firstFit, Glob.firstFit, hstrip]
      simp only [Glob.find, hrest.isEmpty_eq, hrest'.isEmpty_eq, hfit]
      split
      next t _ => exact ih hrest' t
      next => rfl

/-- **path.Match is the language of its pattern**, on names without a slash. -/
theorem pathMatch_iff {pattern name : String} (hname : '/' ∉ name.toList) :
    pathMatch pattern name = .ok true ↔
      ∃ p, Reads pattern.toList p ∧ Glob.Matches p name.toList := by
  rw [pathMatch, matchLoop_iff _ (Nat.le_refl _) hname]
  constructor
  · rintro ⟨p, hp, hfind⟩
    exact ⟨p, hp, (Glob.find_iff_matches hp.tail_starred _).mp hfind⟩
  · rintro ⟨p, hp, hmatches⟩
    exact ⟨p, hp, (Glob.find_iff_matches hp.tail_starred _).mpr hmatches⟩

/-- One reading decides a match. -/
theorem Reads.pathMatch_iff {pattern name : String} {p : Pattern Char}
    (hp : Reads pattern.toList p) (hname : '/' ∉ name.toList) :
    pathMatch pattern name = .ok true ↔ Glob.Matches p name.toList := by
  rw [pathMatch, matchLoop_iff _ (Nat.le_refl _) hname,
    ← Glob.find_iff_matches hp.tail_starred]
  constructor
  · rintro ⟨q, hq, hfind⟩
    rw [hp.find_eq hq]
    exact hfind
  · intro hfind
    exact ⟨p, hp, hfind⟩

/-! ## A pattern that matches a wildcard identifier -/

/-- Whether the first chunk of a pattern matches at the start of a name; to the end of the name,
when it is the only chunk. -/
def headFits (pattern name : List Char) : Bool :=
  let (_, chunk, rest) := scanChunk pattern
  match matchChunk chunk.length chunk (some name) with
  | .ok (some t) => !rest.isEmpty || t.isEmpty
  | _ => false

/-- What a pattern takes in the place of the star of a wildcard identifier `"*" ++ zone`: any label
when the pattern begins with a star and matches the zone; otherwise the labels where its first
chunk fits, at the start or behind a star anywhere. -/
def standsFor (pattern label zone : String) : Bool :=
  if pattern.toList.head? = some '*' then
    (pathMatch pattern zone).toOption == some true ||
      label.toList.tails.any fun v => !v.isEmpty && headFits pattern.toList (v ++ zone.toList)
  else headFits pattern.toList (label.toList ++ zone.toList)

/-- The first chunk of a pattern fits where its block does. -/
theorem headFits_iff {pattern chunk rest name : List Char} {star : Bool} {b : Block Char}
    {p : Pattern Char} (hscan : scanChunk pattern = (star, chunk, rest))
    (hread : ∀ s, matchChunk chunk.length chunk s = .ok (s.bind (strip b)))
    (hrest : Reads rest p) :
    headFits pattern name = true ↔
      ∃ t, strip b name = some t ∧ (p.isEmpty = true → t = []) := by
  rw [headFits, hscan]
  simp only [hread, Option.bind_some, hrest.isEmpty_eq]
  cases strip b name with
  | none => simp
  | some t => cases rest <;> simp

/-- **What a pattern that matches a wildcard makes of a concrete name**: it matches the name
exactly when it takes the label in the place of the star. -/
theorem pathMatch_wildcard_iff {pattern label zone : String} (hlabel : label ≠ "")
    (hslash : '/' ∉ (label ++ zone).toList) (h : pathMatch pattern ("*" ++ zone) = .ok true) :
    pathMatch pattern (label ++ zone) = .ok true ↔ standsFor pattern label zone = true := by
  have hzone : '/' ∉ zone.toList := by
    intro hmem
    exact hslash (by simp [hmem])
  have hstar : '/' ∉ ("*" ++ zone).toList := by
    intro hmem
    simp at hmem
    exact hzone hmem
  have hne : label.toList ≠ [] := by
    intro hnil
    exact hlabel (String.toList_inj.mp hnil)
  obtain ⟨p, hp, hm⟩ := (pathMatch_iff hstar).mp h
  have hm : Glob.Matches p ('*' :: zone.toList) := by
    rw [String.toList_append] at hm
    exact hm
  rw [hp.pathMatch_iff hslash, String.toList_append]
  have hzoneMatch := hp.pathMatch_iff hzone
  rw [standsFor]
  generalize pattern.toList = runes at hp ⊢
  cases hp with
  | nil => cases hm
  | @cons _ chunk rest star b p hcons hscan hread hb hrest =>
    obtain ⟨-, hstarred, hlast, hhead⟩ := scanChunk_spec hcons hscan
    have hempty : b = [] → p = [] := by
      intro hnil
      obtain ⟨-, rfl⟩ := hlast (hb hnil)
      cases hrest with
      | nil => rfl
      | cons hne => exact absurd rfl hne
    rw [Glob.matches_replaced_iff (hrest.starred hstarred) hempty hne hm]
    by_cases hbegins : runes.head? = some '*'
    · obtain rfl := hhead.mpr hbegins
      rw [if_pos hbegins, Bool.or_eq_true, List.any_eq_true]
      apply or_congr
      · rw [← hzoneMatch]
        cases hmatch : pathMatch pattern zone with
        | error e => simp [Except.toOption]
        | ok matched => simp [Except.toOption]
      · constructor
        · rintro ⟨u, v, t, hl, hv, -, hfits, ht⟩
          refine ⟨v, ?_, ?_⟩
          · rw [List.mem_tails, hl]
            exact List.suffix_append u v
          · rw [Bool.and_eq_true, headFits_iff hscan hread hrest]
            exact ⟨by simpa using hv, t, hfits, ht⟩
        · rintro ⟨v, hv, hfits⟩
          rw [Bool.and_eq_true, headFits_iff hscan hread hrest] at hfits
          obtain ⟨hv', t, hfits, ht⟩ := hfits
          obtain ⟨u, hu⟩ := (List.mem_tails ..).mp hv
          exact ⟨u, v, t, hu.symm, by simpa using hv', fun hstar => Bool.noConfusion hstar,
            hfits, ht⟩
    · have hnostar : star = false := by
        cases star with
        | false => rfl
        | true => exact absurd (hhead.mp rfl) hbegins
      subst hnostar
      rw [if_neg hbegins, headFits_iff hscan hread hrest]
      constructor
      · rintro (⟨hstar, -⟩ | ⟨u, v, t, hl, -, hu, hfits, ht⟩)
        · cases hstar
        · rw [hu rfl, List.nil_append] at hl
          rw [hl]
          exact ⟨t, hfits, ht⟩
      · rintro ⟨t, hfits, ht⟩
        exact .inr ⟨[], label.toList, t, rfl, hne, fun _ => rfl, hfits, ht⟩

/-- **A pattern that begins with a star and matches a zone** matches every name in it. -/
theorem pathMatch_in_zone {pattern zone : String} (hstar : pattern.toList.head? = some '*')
    (hzone : pathMatch pattern zone = .ok true) {label : String}
    (hslash : '/' ∉ (label ++ zone).toList) : pathMatch pattern (label ++ zone) = .ok true := by
  have hslash' : '/' ∉ zone.toList := by
    intro hmem
    exact hslash (by simp [hmem])
  obtain ⟨p, hp, hm⟩ := (pathMatch_iff hslash').mp hzone
  rw [hp.pathMatch_iff hslash, String.toList_append]
  generalize pattern.toList = runes at hp hstar
  cases hp with
  | nil => cases hstar
  | cons hcons hscan =>
    obtain rfl := (scanChunk_spec hcons hscan).2.2.2.mpr hstar
    exact hm.prepend label.toList

end Go
