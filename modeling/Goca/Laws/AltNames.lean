import Mathlib.Algebra.GroupWithZero.Nat
import Mathlib.Data.List.Forall2
import Goca.Laws.Addresses

/-!
# Alternative names as text

A certificate row keeps the alternative names as a list of texts, each with its type in front, and
`parseSANs` reads them back when the certificate is renewed. The parser is the one for forms and
flags: it cuts every text at commas, semicolons and blanks before it looks for a type, so a name
that contains one of them comes back as several names, the later ones of a type that is guessed.

- `parseSANs_strings`: a set comes back as itself exactly when none of its names is cut or trimmed.
- `parseSANs_plain`: a text that stands for itself is one name, of the type that is guessed.
-/

set_option autoImplicit false

namespace Goca.Pki

open Go (IP URL)

/-! ## One text -/

/-- A text that the parser leaves alone. -/
def Plain (t : String) : Prop :=
  Go.trimSpace t = t ∧ ∀ c ∈ t.toList, isSeparator c = false

/-- An address rune is no separator. -/
theorem not_separator_of_addressRune {c : Char} (h : addressRune c = true) :
    isSeparator c = false := by
  refine Go.ascii_induction (P := fun c => addressRune c = true → isSeparator c = false) ?_
    (Nat.lt_of_le_of_lt (addressRune_visible h).2 (by decide)) h
  decide +kernel

theorem plain_of_all {t : String}
    (h : Go.trimSpace t = t ∧ t.toList.all (fun c => !isSeparator c) = true) : Plain t :=
  ⟨h.1, fun c hc => by simpa using List.all_eq_true.mp h.2 c hc⟩

/-- What the parser takes a typed text for: its part before the first separator. -/
def leading (t : String) : String :=
  Go.trimSpace (.ofList ((t.toList.splitOnP isSeparator).headD []))

/-- Whether nothing but blanks follows the first separator of a text. -/
def Whole (t : String) : Prop :=
  ∀ f ∈ (t.toList.splitOnP isSeparator).tail, Go.trimRunes Go.isSpace f = []

/-- The entry that a part of a text is. -/
def entry (f : List Char) : Option String :=
  if Go.trimRunes Go.isSpace f = [] then none else some (.ofList (Go.trimRunes Go.isSpace f))

theorem splitList_append (xs ys : List String) :
    splitList (xs ++ ys) = splitList xs ++ splitList ys := by
  unfold splitList
  rw [List.flatMap_append, List.filterMap_append]

/-- The entries of one text. -/
theorem splitList_one (t : String) :
    splitList [t] = (t.toList.splitOnP isSeparator).filterMap entry := by
  unfold splitList Go.fieldsFunc
  rw [List.flatMap_cons, List.flatMap_nil, List.append_nil, List.filterMap_filterMap]
  refine List.filterMap_congr fun f _ => ?_
  unfold entry
  by_cases hf : f = []
  · subst hf
    rfl
  · rw [if_neg (by simpa using hf)]
    simp only [Option.bind_some, Go.trimSpace, String.toList_ofList]
    by_cases htrim : Go.trimRunes Go.isSpace f = []
    · rw [if_pos htrim, htrim]
      rfl
    · rw [if_neg htrim, if_neg]
      intro h
      have := congrArg String.toList h
      rw [String.toList_ofList] at this
      exact htrim this

/-- Runes that are no separators stay in front of the first part. -/
theorem splitOnP_append {pre t : List Char} (hpre : ∀ c ∈ pre, isSeparator c = false) :
    (pre ++ t).splitOnP isSeparator =
      (pre ++ (t.splitOnP isSeparator).headD []) :: (t.splitOnP isSeparator).tail := by
  induction pre with
  | nil =>
    obtain ⟨h, tl, hsplit⟩ := List.exists_cons_of_ne_nil (List.splitOnP_ne_nil isSeparator t)
    rw [List.nil_append, hsplit]
    rfl
  | cons c pre ih =>
    rw [List.cons_append, List.splitOnP_cons_eq_if_modifyHead,
      if_neg (Bool.eq_false_iff.mp (hpre c List.mem_cons_self)),
      ih fun d hd => hpre d (List.mem_cons_of_mem _ hd)]
    rfl

/-- What the parser takes a text for is plain. -/
theorem plain_leading (t : String) : Plain (leading t) := by
  refine ⟨Go.trimSpace_trimSpace _, ?_⟩
  intro c hc
  unfold leading Go.trimSpace at hc
  rw [String.toList_ofList, String.toList_ofList] at hc
  obtain ⟨h, tl, hsplit⟩ := List.exists_cons_of_ne_nil (List.splitOnP_ne_nil isSeparator t.toList)
  rw [hsplit] at hc
  refine Words.not_of_mem_splitOnP (f := h) (t := t.toList) ?_ c (Go.mem_of_mem_trimRunes hc)
  rw [hsplit]
  exact List.mem_cons_self

/-- A plain text is taken for itself. -/
theorem leading_plain {t : String} (h : Plain t) : leading t = t := by
  unfold leading
  rw [List.splitOnP_eq_singleton h.2]
  show Go.trimSpace (.ofList t.toList) = t
  rw [String.ofList_toList, h.1]

theorem whole_plain {t : String} (h : Plain t) : Whole t := by
  unfold Whole
  rw [List.splitOnP_eq_singleton h.2]
  exact fun f hf => nomatch hf

theorem plain_iff_leading {t : String} : leading t = t ↔ Plain t :=
  ⟨fun h => h ▸ plain_leading t, leading_plain⟩

/-! ## Texts with a type in front -/

/-- A text that can stand in front of a name: not blank at either end, and without separators. -/
def IsType (pre : String) : Prop :=
  pre.toList ≠ [] ∧ (∀ c ∈ pre.toList.head?, Go.isSpace c = false) ∧
    (∀ c ∈ pre.toList.getLast?, Go.isSpace c = false) ∧ ∀ c ∈ pre.toList, isSeparator c = false

theorem isType_of_toList {pre : String} {s : List Char} (h : pre.toList = s)
    (hs : s ≠ [] ∧ s.head?.all (!Go.isSpace ·) ∧ s.getLast?.all (!Go.isSpace ·) ∧
      s.all (!isSeparator ·)) : IsType pre := by
  obtain ⟨hne, hhead, hlast, hsep⟩ := hs
  refine ⟨h ▸ hne, ?_, ?_, ?_⟩
  · intro c hc
    rw [h, Option.mem_def] at hc
    rw [hc] at hhead
    simpa using hhead
  · intro c hc
    rw [h, Option.mem_def] at hc
    rw [hc] at hlast
    simpa using hlast
  · intro c hc
    rw [h] at hc
    simpa using List.all_eq_true.mp hsep c hc

theorem isType_dns : IsType "DNS:" :=
  isType_of_toList (s := ['D', 'N', 'S', ':']) rfl (by decide)

theorem isType_ip : IsType "IP:" :=
  isType_of_toList (s := ['I', 'P', ':']) rfl (by decide)

theorem isType_email : IsType "EMAIL:" :=
  isType_of_toList (s := ['E', 'M', 'A', 'I', 'L', ':']) rfl (by decide)

theorem isType_uri : IsType "URI:" :=
  isType_of_toList (s := ['U', 'R', 'I', ':']) rfl (by decide)


theorem filterMap_entry_eq_nil {fs : List (List Char)} :
    fs.filterMap entry = [] ↔ ∀ f ∈ fs, Go.trimRunes Go.isSpace f = [] := by
  rw [List.filterMap_eq_nil_iff]
  refine forall₂_congr fun f _ => ?_
  unfold entry
  split <;> simp [*]

/-- **The entries of a typed text**: the type with what the text is taken for, and more unless the
text is whole. -/
theorem splitList_typed {pre : String} (hpre : IsType pre) (t : String) :
    ∃ y rest, splitList [pre ++ t] = (pre ++ y) :: rest ∧ Go.trimSpace y = leading t ∧
      (rest = [] ↔ Whole t) := by
  obtain ⟨hne, hhead, hlast, hsep⟩ := hpre
  have hfirst := Go.trimRunes_append (s := (t.toList.splitOnP isSeparator).headD []) hne hhead hlast
  refine ⟨.ofList (((t.toList.splitOnP isSeparator).headD []).rdropWhile Go.isSpace),
    ((t.toList.splitOnP isSeparator).tail).filterMap entry, ?_, ?_, ?_⟩
  · rw [splitList_one, String.toList_append, splitOnP_append hsep, List.filterMap_cons]
    unfold entry
    rw [hfirst, if_neg (List.append_ne_nil_of_left_ne_nil hne _), String.ofList_append,
      String.ofList_toList]
  · unfold leading Go.trimSpace
    rw [String.toList_ofList, String.toList_ofList, Go.trimRunes_rdropWhile]
  · exact filterMap_entry_eq_nil

/-- Cutting off the bytes of a text leaves what follows it. -/
theorem dropBytes_append (l s : List Char) : dropBytes (l.map Char.utf8Size).sum (l ++ s) = s := by
  induction l with
  | nil => cases s <;> rfl
  | cons c l ih =>
    have hpos := c.utf8Size_pos
    rw [List.map_cons, List.sum_cons, List.cons_append]
    obtain ⟨n, hn⟩ : ∃ n, c.utf8Size + (l.map Char.utf8Size).sum = n + 1 :=
      ⟨c.utf8Size + (l.map Char.utf8Size).sum - 1, by omega⟩
    rw [hn]
    show dropBytes (n + 1 - c.utf8Size) (l ++ s) = s
    rw [← hn, Nat.add_sub_cancel_left, ih]

theorem afterPrefix_append (pre : String) (n : Nat)
    (h : (pre.toList.map Char.utf8Size).sum = n) (y : String) :
    afterPrefix (pre ++ y) n = Go.trimSpace y := by
  unfold afterPrefix
  rw [← h, String.toList_append, dropBytes_append, String.ofList_toList]

section

variable [Go.Runtime]

/-- Whether a typed text in lower case begins with a type is decided by its own type. -/
theorem hasPrefix_typed {pre low : String} {b : Bool} (y : String)
    (h : low.toList.isPrefixOf (pre.toList.map Go.lowerRune ++ y.toList.map Go.lowerRune) = b) :
    Go.hasPrefix (Go.toLower (pre ++ y)) low = b := by
  unfold Go.hasPrefix Go.toLower
  rw [String.toList_ofList, String.toList_append, List.map_append, h]

theorem addSAN_dns (set : SANSet) (y : String) :
    addSAN set ("DNS:" ++ y) = .ok { set with dns := set.dns ++ [Go.trimSpace y] } := by
  have hdns : Go.hasPrefix (Go.toLower ("DNS:" ++ y)) "dns:" = true := hasPrefix_typed y rfl
  unfold addSAN
  simp only [hdns, if_true, afterPrefix_append "DNS:" 4 rfl]

theorem addSAN_ip (set : SANSet) (y : String) {ip : IP}
    (h : Go.parseIP (Go.trimSpace y) = some ip) :
    addSAN set ("IP:" ++ y) = .ok { set with ips := set.ips ++ [ip] } := by
  have hdns : Go.hasPrefix (Go.toLower ("IP:" ++ y)) "dns:" = false := hasPrefix_typed y rfl
  have hip : Go.hasPrefix (Go.toLower ("IP:" ++ y)) "ip:" = true := hasPrefix_typed y rfl
  unfold addSAN
  simp only [hdns, hip, if_true, Bool.false_eq_true, if_false,
    afterPrefix_append "IP:" 3 rfl, h]

theorem addSAN_email (set : SANSet) (y : String) :
    addSAN set ("EMAIL:" ++ y) = .ok { set with emails := set.emails ++ [Go.trimSpace y] } := by
  have hdns : Go.hasPrefix (Go.toLower ("EMAIL:" ++ y)) "dns:" = false := hasPrefix_typed y rfl
  have hip : Go.hasPrefix (Go.toLower ("EMAIL:" ++ y)) "ip:" = false := hasPrefix_typed y rfl
  have hemail : Go.hasPrefix (Go.toLower ("EMAIL:" ++ y)) "email:" = true := hasPrefix_typed y rfl
  unfold addSAN
  simp only [hdns, hip, hemail, if_true, Bool.false_eq_true, if_false,
    afterPrefix_append "EMAIL:" 6 rfl]

theorem addSAN_uri {set r : SANSet} {y : String} :
    addSAN set ("URI:" ++ y) = .ok r ↔ ∃ u, Go.Runtime.urlParse (Go.trimSpace y) = .ok u ∧
      r = { set with uris := set.uris ++ [u] } := by
  have hdns : Go.hasPrefix (Go.toLower ("URI:" ++ y)) "dns:" = false := hasPrefix_typed y rfl
  have hip : Go.hasPrefix (Go.toLower ("URI:" ++ y)) "ip:" = false := hasPrefix_typed y rfl
  have hemail : Go.hasPrefix (Go.toLower ("URI:" ++ y)) "email:" = false := hasPrefix_typed y rfl
  have huri : Go.hasPrefix (Go.toLower ("URI:" ++ y)) "uri:" = true := hasPrefix_typed y rfl
  unfold addSAN
  simp only [hdns, hip, hemail, huri, if_true, Bool.false_eq_true, if_false,
    afterPrefix_append "URI:" 4 rfl]
  cases Go.Runtime.urlParse (Go.trimSpace y) with
  | ok u => simp [eq_comm]
  | error e => simp

/-! ## Counting names -/

/-- How many names a set has. -/
def SANSet.size (s : SANSet) : Nat :=
  s.dns.length + s.ips.length + s.emails.length + s.uris.length

/-- An entry adds one name. -/
theorem addSAN_size {set r : SANSet} {item : String} (h : addSAN set item = .ok r) :
    r.size = set.size + 1 := by
  have huri (u : URL) : { set with uris := set.uris ++ [u] }.size = set.size + 1 := by
    simp only [SANSet.size, List.length_append, List.length_singleton]
    omega
  unfold addSAN at h
  dsimp only at h
  split at h
  · cases h
    simp only [SANSet.size, List.length_append, List.length_singleton]
    omega
  split at h
  · split at h
    · cases h
      simp only [SANSet.size, List.length_append, List.length_singleton]
      omega
    · cases h
  split at h
  · cases h
    simp only [SANSet.size, List.length_append, List.length_singleton]
    omega
  split at h
  · split at h
    · cases h
      exact huri _
    · cases h
  split at h
  · cases h
    simp only [SANSet.size, List.length_append, List.length_singleton]
    omega
  split at h
  · cases h
    simp only [SANSet.size, List.length_append, List.length_singleton]
    omega
  split at h
  · split at h
    · cases h
      exact huri _
    · cases h
  · cases h
    simp only [SANSet.size, List.length_append, List.length_singleton]
    omega

theorem parseSANs_size {items : List String} {set r : SANSet}
    (h : items.foldlM addSAN set = .ok r) : r.size = set.size + items.length := by
  induction items generalizing set with
  | nil =>
    cases h
    rfl
  | cons item items ih =>
    rw [List.foldlM_cons] at h
    cases hadd : addSAN set item with
    | error e =>
      rw [hadd] at h
      cases h
    | ok set' =>
      rw [hadd] at h
      rw [ih h, addSAN_size hadd, List.length_cons]
      omega

/-- An entry that is read as an address is one. -/
theorem addSAN_addresses {set r : SANSet} {item : String} (hset : ∀ ip ∈ set.ips, IsAddress ip)
    (h : addSAN set item = .ok r) : ∀ ip ∈ r.ips, IsAddress ip := by
  have hput {ip : IP} (hip : IsAddress ip) : ∀ x ∈ set.ips ++ [ip], IsAddress x := by
    intro x hx
    rcases List.mem_append.mp hx with hx | hx
    · exact hset x hx
    · rw [List.mem_singleton.mp hx]
      exact hip
  unfold addSAN at h
  dsimp only at h
  split at h
  · cases h
    exact hset
  split at h
  · split at h
    · next hip =>
      cases h
      exact hput (isAddress_of_parseIP hip)
    · cases h
  split at h
  · cases h
    exact hset
  split at h
  · split at h
    · cases h
      exact hset
    · cases h
  split at h
  · next hip =>
    cases h
    exact hput (isAddress_of_parseIP hip)
  split at h
  · cases h
    exact hset
  split at h
  · split at h
    · cases h
      exact hset
    · cases h
  · cases h
    exact hset

/-- The addresses of a list of names are addresses. -/
theorem parseSANs_addresses {entries : List String} {r : SANSet} (h : parseSANs entries = .ok r) :
    ∀ ip ∈ r.ips, IsAddress ip := by
  have hfold (items : List String) (set : SANSet) (hset : ∀ ip ∈ set.ips, IsAddress ip)
      (hitems : items.foldlM addSAN set = .ok r) : ∀ ip ∈ r.ips, IsAddress ip := by
    induction items generalizing set with
    | nil =>
      cases hitems
      exact hset
    | cons item items ih =>
      rw [List.foldlM_cons] at hitems
      cases hadd : addSAN set item with
      | error e =>
        rw [hadd] at hitems
        cases hitems
      | ok set' =>
        rw [hadd] at hitems
        exact ih set' (addSAN_addresses hset hadd) hitems
  exact hfold _ {} (List.forall_mem_nil _) h

/-! ## Lists of typed texts -/

omit [Go.Runtime] in
/-- Every typed text is one entry at least, and each is exactly one when as many come out as went
in. -/
theorem splitList_typed_length {pre : String} (hpre : IsType pre) (ts : List String) :
    ts.length ≤ (splitList (ts.map (pre ++ ·))).length ∧
      ((splitList (ts.map (pre ++ ·))).length = ts.length → ∀ t ∈ ts, Whole t) := by
  induction ts with
  | nil => exact ⟨Nat.zero_le _, fun _ t ht => nomatch ht⟩
  | cons t ts ih =>
    obtain ⟨y, rest, hsplit, _, hwhole⟩ := splitList_typed hpre t
    have hcons : splitList ((t :: ts).map (pre ++ ·)) =
        (pre ++ y) :: rest ++ splitList (ts.map (pre ++ ·)) := by
      rw [← hsplit, ← splitList_append]
      rfl
    rw [hcons, List.length_append, List.length_cons, List.length_cons]
    refine ⟨by omega, ?_⟩
    intro hlen t' ht'
    have hrest : rest.length = 0 := by omega
    rcases List.mem_cons.mp ht' with rfl | ht'
    · exact hwhole.mp (List.length_eq_zero_iff.mp hrest)
    · exact ih.2 (by omega) t' ht'

/-- Whole texts of a type whose names are always accepted are read in turn. -/
theorem foldlM_typed {pre : String} (hpre : IsType pre) {put : SANSet → String → SANSet}
    (hadd : ∀ set y, addSAN set (pre ++ y) = .ok (put set (Go.trimSpace y))) {ts : List String}
    (hts : ∀ t ∈ ts, Whole t) (items : List String) (set : SANSet) :
    (splitList (ts.map (pre ++ ·)) ++ items).foldlM addSAN set =
      items.foldlM addSAN ((ts.map leading).foldl put set) := by
  induction ts generalizing set with
  | nil => rfl
  | cons t ts ih =>
    obtain ⟨y, rest, hsplit, hy, hwhole⟩ := splitList_typed hpre t
    obtain rfl := hwhole.mpr (hts t List.mem_cons_self)
    have hcons : splitList ((t :: ts).map (pre ++ ·)) =
        [pre ++ y] ++ splitList (ts.map (pre ++ ·)) := by
      rw [← hsplit, ← splitList_append]
      rfl
    rw [hcons, List.append_assoc, List.singleton_append, List.foldlM_cons, hadd, hy]
    exact ih (fun t ht => hts t (List.mem_cons_of_mem _ ht)) _

theorem foldlM_dns {ts : List String} (hts : ∀ t ∈ ts, Whole t) (items : List String)
    (set : SANSet) : (splitList (ts.map ("DNS:" ++ ·)) ++ items).foldlM addSAN set =
      items.foldlM addSAN { set with dns := set.dns ++ ts.map leading } := by
  have hput : ∀ (l : List String) (s : SANSet),
      l.foldl (fun s t => { s with dns := s.dns ++ [t] }) s = { s with dns := s.dns ++ l } := by
    intro l
    induction l with
    | nil => simp
    | cons t l ih => simp [ih]
  rw [@foldlM_typed _ _ isType_dns (fun s t => { s with dns := s.dns ++ [t] }) addSAN_dns _ hts,
    hput]

theorem foldlM_emails {ts : List String} (hts : ∀ t ∈ ts, Whole t) (items : List String)
    (set : SANSet) : (splitList (ts.map ("EMAIL:" ++ ·)) ++ items).foldlM addSAN set =
      items.foldlM addSAN { set with emails := set.emails ++ ts.map leading } := by
  have hput : ∀ (l : List String) (s : SANSet),
      l.foldl (fun s t => { s with emails := s.emails ++ [t] }) s =
        { s with emails := s.emails ++ l } := by
    intro l
    induction l with
    | nil => simp
    | cons t l ih => simp [ih]
  rw [@foldlM_typed _ _ isType_email (fun s t => { s with emails := s.emails ++ [t] })
    addSAN_email _ hts, hput]

omit [Go.Runtime] in
/-- The text of an address is plain. -/
theorem plain_of_address {t : String} (h : ∀ c ∈ t.toList, addressRune c = true) : Plain t :=
  ⟨Go.trimSpace_eq_self fun c hc => Go.isSpace_of_visible (addressRune_visible (h c hc)),
    fun c hc => not_separator_of_addressRune (h c hc)⟩

/-- Addresses are read back in turn. -/
theorem foldlM_ips {ips : List IP} (hips : ∀ ip ∈ ips, IsAddress ip) (items : List String)
    (set : SANSet) :
    (splitList (ips.map fun ip => "IP:" ++ ipText ip) ++ items).foldlM addSAN set =
      items.foldlM addSAN { set with ips := set.ips ++ ips } := by
  induction ips generalizing set with
  | nil => rw [List.append_nil]; rfl
  | cons ip ips ih =>
    have hip := hips ip List.mem_cons_self
    have hplain : Plain (ipText ip) := plain_of_address fun c hc => rune_of_ipText hip hc
    obtain ⟨y, rest, hsplit, hy, hwhole⟩ := splitList_typed isType_ip (ipText ip)
    obtain rfl := hwhole.mpr (whole_plain hplain)
    have hcons : splitList ((ip :: ips).map fun ip => "IP:" ++ ipText ip) =
        ["IP:" ++ y] ++ splitList (ips.map fun ip => "IP:" ++ ipText ip) := by
      rw [← hsplit, ← splitList_append]
      rfl
    have hparse : Go.parseIP (Go.trimSpace y) = some ip := by
      rw [hy, leading_plain hplain, parseIP_ipText hip]
    rw [hcons, List.append_assoc, List.singleton_append, List.foldlM_cons, addSAN_ip set y hparse]
    refine (ih (fun ip h => hips ip (List.mem_cons_of_mem _ h)) _).trans ?_
    rw [List.append_assoc]
    rfl

/-- URIs are read in turn, each as what its leading part parses to. -/
theorem foldlM_uris {us : List URL} (hus : ∀ u ∈ us, Whole u.text) {set r : SANSet} :
    (splitList (us.map fun u => "URI:" ++ u.text)).foldlM addSAN set = .ok r ↔
      ∃ vs, List.Forall₂ (fun u v => Go.Runtime.urlParse (leading u.text) = .ok v) us vs ∧
        r = { set with uris := set.uris ++ vs } := by
  induction us generalizing set with
  | nil =>
    constructor
    · intro h
      cases h
      exact ⟨[], .nil, by rw [List.append_nil]⟩
    · rintro ⟨vs, hvs, rfl⟩
      cases hvs
      rw [List.append_nil]
      rfl
  | cons u us ih =>
    obtain ⟨y, rest, hsplit, hy, hwhole⟩ := splitList_typed isType_uri u.text
    obtain rfl := hwhole.mpr (hus u List.mem_cons_self)
    have hcons : splitList ((u :: us).map fun u => "URI:" ++ u.text) =
        ["URI:" ++ y] ++ splitList (us.map fun u => "URI:" ++ u.text) := by
      rw [← hsplit, ← splitList_append]
      rfl
    rw [hcons, List.singleton_append, List.foldlM_cons]
    have ih := @ih fun u h => hus u (List.mem_cons_of_mem _ h)
    constructor
    · intro h
      cases hadd : addSAN set ("URI:" ++ y) with
      | error e =>
        rw [hadd] at h
        cases h
      | ok set' =>
        rw [hadd] at h
        obtain ⟨v, hv, rfl⟩ := addSAN_uri.mp hadd
        obtain ⟨vs, hvs, rfl⟩ := ih.mp h
        refine ⟨v :: vs, .cons (hy ▸ hv) hvs, ?_⟩
        rw [List.append_assoc]
        rfl
    · rintro ⟨vs, hvs, rfl⟩
      cases hvs with
      | cons hv hvs =>
        rw [addSAN_uri.mpr ⟨_, hy ▸ hv, rfl⟩]
        refine ih.mpr ⟨_, hvs, ?_⟩
        rw [List.append_assoc]
        rfl

/-! ## The round trip -/

/-- A stored set is read type by type. -/
theorem parseSANs_eq (s : SANSet) : parseSANs s.strings =
    (splitList (s.dns.map ("DNS:" ++ ·)) ++ (splitList (s.ips.map fun ip => "IP:" ++ ipText ip) ++
      (splitList (s.emails.map ("EMAIL:" ++ ·)) ++
        splitList (s.uris.map fun u => "URI:" ++ u.text)))).foldlM addSAN {} := by
  unfold parseSANs SANSet.strings
  simp only [splitList_append, List.append_assoc]

/-- No name is lost, and where as many come back as were stored, every text is whole. -/
theorem whole_of_size {s t : SANSet} (h : parseSANs s.strings = .ok t) : s.size ≤ t.size ∧
    (t.size = s.size →
      (∀ d ∈ s.dns, Whole d) ∧ (∀ e ∈ s.emails, Whole e) ∧ ∀ u ∈ s.uris, Whole u.text) := by
  rw [parseSANs_eq] at h
  have hsize := parseSANs_size h
  have hmap {α : Type} (pre : String) (f : α → String) (l : List α) :
      (l.map fun a => pre ++ f a) = (l.map f).map (pre ++ ·) := by
    rw [List.map_map]
    rfl
  rw [hmap "IP:" ipText, hmap "URI:" URL.text] at hsize
  simp only [SANSet.size, List.length_append, List.length_nil] at hsize ⊢
  obtain ⟨hdns, hdnsWhole⟩ := splitList_typed_length isType_dns s.dns
  obtain ⟨hip, _⟩ := splitList_typed_length isType_ip (s.ips.map ipText)
  obtain ⟨hemail, hemailWhole⟩ := splitList_typed_length isType_email s.emails
  obtain ⟨huri, huriWhole⟩ := splitList_typed_length isType_uri (s.uris.map URL.text)
  rw [List.length_map] at hip huri huriWhole
  refine ⟨by omega, fun heq => ⟨hdnsWhole (by omega), hemailWhole (by omega), ?_⟩⟩
  intro u hu
  exact huriWhole (by omega) u.text (List.mem_map_of_mem hu)

/-- Where the names come back as they were stored, every text is whole. -/
theorem whole_of_parseSANs {s : SANSet} (h : parseSANs s.strings = .ok s) :
    (∀ d ∈ s.dns, Whole d) ∧ (∀ e ∈ s.emails, Whole e) ∧ ∀ u ∈ s.uris, Whole u.text :=
  (whole_of_size h).2 rfl

/-- Whole texts are read as what each is taken for. -/
theorem parseSANs_whole {s : SANSet} (hips : ∀ ip ∈ s.ips, IsAddress ip)
    (hdns : ∀ d ∈ s.dns, Whole d) (hemails : ∀ e ∈ s.emails, Whole e)
    (huris : ∀ u ∈ s.uris, Whole u.text) : parseSANs s.strings = .ok s ↔
      s.dns.map leading = s.dns ∧ s.emails.map leading = s.emails ∧
        ∀ u ∈ s.uris, Go.Runtime.urlParse (leading u.text) = .ok u := by
  rw [parseSANs_eq, foldlM_dns hdns, foldlM_ips hips, foldlM_emails hemails, foldlM_uris huris]
  constructor
  · rintro ⟨vs, hvs, hs⟩
    have hd := congrArg SANSet.dns hs
    have he := congrArg SANSet.emails hs
    have hu := congrArg SANSet.uris hs
    obtain rfl : s.uris = vs := hu
    exact ⟨hd.symm, he.symm, List.forall₂_same.mp hvs⟩
  · rintro ⟨hd, he, hu⟩
    refine ⟨s.uris, List.forall₂_same.mpr hu, ?_⟩
    rw [hd, he]
    rfl

omit [Go.Runtime] in
theorem map_leading_eq {l : List String} : l.map leading = l ↔ ∀ t ∈ l, Plain t := by
  conv => lhs; rhs; rw [← List.map_id l]
  rw [List.map_inj_left]
  exact forall₂_congr fun t _ => plain_iff_leading

/-- **A set of names comes back as itself** exactly when none of its texts is cut or trimmed on the
way, and each URI is what its text parses to. -/
theorem parseSANs_strings {s : SANSet} (hips : ∀ ip ∈ s.ips, IsAddress ip) :
    parseSANs s.strings = .ok s ↔ (∀ d ∈ s.dns, Plain d) ∧ (∀ e ∈ s.emails, Plain e) ∧
      ∀ u ∈ s.uris, Whole u.text ∧ Go.Runtime.urlParse (leading u.text) = .ok u := by
  constructor
  · intro h
    obtain ⟨hdns, hemails, huris⟩ := whole_of_parseSANs h
    obtain ⟨hd, he, hu⟩ := (parseSANs_whole hips hdns hemails huris).mp h
    exact ⟨map_leading_eq.mp hd, map_leading_eq.mp he, fun u hmem => ⟨huris u hmem, hu u hmem⟩⟩
  · rintro ⟨hd, he, hu⟩
    exact (parseSANs_whole hips (fun d h => whole_plain (hd d h)) (fun e h => whole_plain (he e h))
      fun u h => (hu u h).1).mpr ⟨map_leading_eq.mpr hd, map_leading_eq.mpr he,
        fun u h => (hu u h).2⟩

end

section

/-- A runtime in which every text is a URL of the scheme `https`. -/
@[reducible] def httpsRuntime : Go.Runtime := { Go.asciiRuntime with
  urlParse := fun s => .ok ⟨"https", "", "", s⟩ }

attribute [local instance] httpsRuntime

/-- A host, an IPv6 address and a URI come back. -/
theorem host_strings :
    let s : SANSet := {
      dns := ["host.internal"]
      ips := [[65152, 0, 0, 0, 0, 0, 0, 1]]
      uris := [⟨"https", "", "", "https://host.internal/a"⟩] }
    parseSANs s.strings = .ok s := by
  refine (parseSANs_strings ?_).mpr ?_
  · unfold IsAddress
    decide
  · refine ⟨?_, fun _ h => absurd h List.not_mem_nil, ?_⟩
    · intro d hd
      rw [List.mem_singleton.mp hd]
      exact plain_of_all (by decide +kernel)
    · intro u hu
      rw [List.mem_singleton.mp hu]
      exact ⟨whole_plain (plain_of_all (by decide +kernel)), by decide +kernel⟩

/-- A URI with a comma in its path comes back as another URI and a host. -/
theorem comma_cut :
    let s : SANSet := { uris := [⟨"https", "", "", "https://host.internal/a,b"⟩] }
    parseSANs s.strings = .ok {
      dns := ["b"]
      uris := [⟨"https", "", "", "https://host.internal/a"⟩] } ∧ parseSANs s.strings ≠ .ok s := by
  decide +kernel

end

end Goca.Pki
