import Goca.Acme.Service
import Goca.Config.BaseURL
import Goca.Go.Decimal

/-!
# The base URL

`NormalizeBaseURL` decides on the parsed URL and returns the text, and URLs of resources are made of
the text by appending a path. The two views agree unless the text ends in a delimiter that stands
for nothing yet: an empty query or an empty fragment swallows the path that is appended, and white
space that a slash had covered is trimmed the next time.
-/

set_option autoImplicit false

namespace Go.Url

/-! ## Escapes -/

theorem utf8EncodeChar_ne_nil (c : Char) : String.utf8EncodeChar c ≠ [] := by
  intro h
  have hlen := congrArg List.length h
  rw [String.length_utf8EncodeChar] at hlen
  exact absurd hlen (Nat.ne_of_gt c.utf8Size_pos)

/-- Only the empty text stands for no bytes. -/
theorem eq_nil_of_unescape {s : List Char} (h : unescape s = .ok []) : s = [] := by
  revert h
  fun_cases unescape s with
  | case1 => exact fun _ => rfl
  | case2 a b rest high low hhigh hlow =>
    intro h
    obtain ⟨bytes, _, hbytes⟩ := map_eq_ok.mp h
    cases hbytes
  | case3 a b rest hno =>
    intro h
    cases h
  | case4 rest hshort =>
    intro h
    cases h
  | case5 c rest hescape hpercent =>
    intro h
    obtain ⟨bytes, _, hbytes⟩ := map_eq_ok.mp h
    exact absurd (List.append_eq_nil_iff.mp hbytes).1 (utf8EncodeChar_ne_nil c)

/-- **A text behind a complete one** stands for the bytes behind. -/
theorem unescape_append {s t : List Char} {x : List UInt8} (h : unescape s = .ok x) :
    unescape (s ++ t) = (unescape t).map (x ++ ·) := by
  revert h
  fun_induction unescape s generalizing x with
  | case1 =>
    rintro ⟨⟩
    rw [List.nil_append]
    cases unescape t <;> rfl
  | case2 a b rest high low hhigh hlow ih =>
    intro h
    obtain ⟨bytes, hrest, rfl⟩ := map_eq_ok.mp h
    show unescape ('%' :: a :: b :: (rest ++ t)) = _
    rw [unescape, ih hrest]
    simp only [hhigh, hlow]
    cases unescape t <;> rfl
  | case3 a b rest hno =>
    intro h
    cases h
  | case4 rest hshort =>
    intro h
    cases h
  | case5 c rest hescape hpercent ih =>
    intro h
    obtain ⟨bytes, hrest, rfl⟩ := map_eq_ok.mp h
    show unescape (c :: (rest ++ t)) = _
    rw [unescape, ih hrest]
    · cases unescape t <;> simp [Except.map]
    · intro a b rest' hc _
      exact hpercent hc
    · exact hpercent

/-- A text without escapes stands for its own bytes. -/
theorem unescape_plain {s : List Char} (h : '%' ∉ s) :
    unescape s = .ok (s.flatMap String.utf8EncodeChar) := by
  induction s with
  | nil => rfl
  | cons c rest ih =>
    have hc : c ≠ '%' := fun heq => h (heq ▸ List.mem_cons_self)
    rw [unescape, ih fun hmem => h (List.mem_cons_of_mem c hmem)]
    · rfl
    · intro a b rest' hpercent _
      exact hc hpercent
    · exact hc

/-! ## Delimiters -/

section Delimiters

variable {c : Char} {l before behind t : List Char}

theorem ne_of_not_mem (h : c ∉ l) : ∀ a ∈ l, (a != c) = true := by
  intro a ha
  rw [bne_iff_ne]
  rintro rfl
  exact h ha

theorem takeWhile_first (h : c ∉ before) :
    (before ++ c :: behind).takeWhile (· != c) = before := by
  rw [List.takeWhile_append_of_pos (ne_of_not_mem h), List.takeWhile_cons_of_neg (by simp),
    List.append_nil]

theorem dropWhile_first (h : c ∉ before) :
    (before ++ c :: behind).dropWhile (· != c) = c :: behind := by
  rw [List.dropWhile_append_of_pos (ne_of_not_mem h), List.dropWhile_cons_of_neg (by simp)]

theorem takeWhile_of_not_mem (h : c ∉ l) : l.takeWhile (· != c) = l :=
  List.takeWhile_eq_self_iff.mpr (ne_of_not_mem h)

theorem dropWhile_of_not_mem (h : c ∉ l) : l.dropWhile (· != c) = [] :=
  List.dropWhile_eq_nil_iff.mpr (ne_of_not_mem h)

/-- Where nothing stands behind the first delimiter, and the text does not end in one, there is
none. -/
theorem not_mem_of_cut (h : (l.dropWhile (· != c)).drop 1 = []) (hlast : l.getLast? ≠ some c) :
    c ∉ l := by
  intro hmem
  obtain ⟨before, behind, rfl, hfirst⟩ := List.eq_append_cons_of_mem hmem
  rw [dropWhile_first hfirst] at h
  have hbehind : behind = [] := h
  rw [hbehind] at hlast
  exact hlast (by simp)

/-- What is appended behind a delimiter stands behind the first one. -/
theorem cut_append_ne (hmem : c ∈ l) (ht : t ≠ []) :
    ((l ++ t).dropWhile (· != c)).drop 1 ≠ [] := by
  obtain ⟨before, behind, rfl, hfirst⟩ := List.eq_append_cons_of_mem hmem
  rw [List.append_assoc, List.cons_append, dropWhile_first hfirst]
  intro h
  exact ht (List.append_eq_nil_iff.mp h).2

/-- What is appended from a slash on stands behind the first one. -/
theorem takeWhile_slash (h : t.head? = some '/') :
    (l ++ t).takeWhile (· != '/') = l.takeWhile (· != '/') ∧
      (l ++ t).dropWhile (· != '/') = l.dropWhile (· != '/') ++ t := by
  obtain ⟨t', rfl⟩ : ∃ t', t = '/' :: t' := by
    cases t with
    | nil => cases h
    | cons c t' => exact ⟨t', by rw [Option.some.inj h]⟩
  by_cases hmem : '/' ∈ l
  · obtain ⟨before, behind, rfl, hfirst⟩ := List.eq_append_cons_of_mem hmem
    rw [List.append_assoc, List.cons_append, takeWhile_first hfirst, takeWhile_first hfirst,
      dropWhile_first hfirst, dropWhile_first hfirst]
    exact ⟨rfl, rfl⟩
  · rw [takeWhile_of_not_mem hmem, dropWhile_of_not_mem hmem, takeWhile_first hmem,
      dropWhile_first hmem]
    exact ⟨rfl, rfl⟩

end Delimiters

/-! ## Schemes -/

section Schemes

variable {raw scheme rest : List Char}

/-- A text with a scheme is the scheme, a colon and the rest. -/
theorem getScheme_split (h : getScheme raw = .ok (scheme, rest)) (hne : scheme ≠ []) :
    raw = scheme ++ ':' :: rest ∧ (∀ c ∈ scheme, isSchemeRune c = true) ∧
      scheme.head?.all Char.isAlpha = true := by
  unfold getScheme at h
  simp only at h
  split at h
  · cases h
    exact absurd rfl hne
  · next halpha =>
    split at h
    · next rest' hdrop =>
      split at h
      · cases h
      · cases h
        refine ⟨?_, fun c hc => List.mem_takeWhile_imp hc, ?_⟩
        · rw [← hdrop]
          exact (List.prefix_iff_eq_append.mp (List.takeWhile_prefix _)).symm
        · cases hall : (raw.takeWhile isSchemeRune).head?.all Char.isAlpha with
          | false => exact absurd hall halpha
          | true => rfl
    · cases h
      exact absurd rfl hne

theorem getScheme_of_split (hne : scheme ≠ []) (hrunes : ∀ c ∈ scheme, isSchemeRune c = true)
    (halpha : scheme.head?.all Char.isAlpha = true) (rest : List Char) :
    getScheme (scheme ++ ':' :: rest) = .ok (scheme, rest) := by
  have htake : (scheme ++ ':' :: rest).takeWhile isSchemeRune = scheme := by
    rw [List.takeWhile_append_of_pos hrunes, List.takeWhile_cons_of_neg (by decide),
      List.append_nil]
  unfold getScheme
  simp only [htake, halpha, List.drop_left, hne]
  rfl

end Schemes

/-! ## Queries -/

section Queries

variable {rest t : List Char}

theorem cutQuery_of_not_mem (h : '?' ∉ rest) : cutQuery rest = (rest, [], false) := by
  have hcount : ¬ (rest.getLast? = some '?' ∧ rest.count '?' = 1) := by
    rw [List.count_eq_zero_of_not_mem h]
    simp
  rw [cutQuery, if_neg hcount, takeWhile_of_not_mem h, dropWhile_of_not_mem h]
  rfl

/-- Without a query, and where the text does not end in `?`, there is no `?`. -/
theorem not_mem_of_cutQuery (h : (cutQuery rest).2.1 = []) (hlast : rest.getLast? ≠ some '?') :
    '?' ∉ rest := by
  rw [cutQuery, if_neg fun hends => hlast hends.1] at h
  exact not_mem_of_cut h hlast

/-- What is appended behind a `?` is in the query. -/
theorem cutQuery_append_ne (hmem : '?' ∈ rest) (ht : t ≠ []) (hlast : t.getLast? ≠ some '?') :
    (cutQuery (rest ++ t)).2.1 ≠ [] := by
  have hends : (rest ++ t).getLast? ≠ some '?' := by
    rw [List.getLast?_append_of_ne_nil rest ht]
    exact hlast
  rw [cutQuery, if_neg fun h => hends h.1]
  exact cut_append_ne hmem ht

end Queries

/-! ## URLs -/

section URLs

variable [Authority] {raw scheme rest tail : List Char} {url u : URL}

/-- What `parseRest` leaves of the URL it goes on with. -/
theorem parseRest_keeps (h : parseRest url rest = .ok u) : u.scheme = url.scheme ∧
    u.rawQuery = url.rawQuery ∧ u.forceQuery = url.forceQuery ∧ u.fragment = url.fragment := by
  unfold parseRest at h
  split at h
  · cases h
    exact ⟨rfl, rfl, rfl, rfl⟩
  · split at h
    · cases h
    · split at h
      · obtain ⟨host, _, h⟩ := bind_eq_ok.mp h
        obtain ⟨path, _, h⟩ := bind_eq_ok.mp h
        cases h
        exact ⟨rfl, rfl, rfl, rfl⟩
      · obtain ⟨path, _, h⟩ := bind_eq_ok.mp h
        cases h
        exact ⟨rfl, rfl, rfl, rfl⟩

/-- Behind a scheme and two slashes there is an authority and a path. -/
theorem parseRest_authority (hscheme : url.scheme ≠ "") :
    parseRest url ('/' :: '/' :: tail) = .ok u ↔
      ∃ host path, Authority.parseAuthority (.ofList (tail.takeWhile (· != '/'))) = .ok host ∧
        unescape (tail.dropWhile (· != '/')) = .ok path ∧ u = { url with host, path } := by
  unfold parseRest
  rw [if_neg (by simp), if_neg (by simp), if_pos ⟨.inl hscheme, rfl⟩, bind_eq_ok]
  constructor
  · rintro ⟨host, hhost, h⟩
    obtain ⟨path, hpath, h⟩ := bind_eq_ok.mp h
    cases h
    exact ⟨host, path, hhost, hpath, rfl⟩
  · rintro ⟨host, path, hhost, hpath, rfl⟩
    exact ⟨host, hhost, bind_eq_ok.mpr ⟨path, hpath, rfl⟩⟩

/-- Only what follows two slashes has a host. -/
theorem tail_of_host (h : parseRest url rest = .ok u) (hnone : url.host = [])
    (hhost : u.host ≠ []) : ∃ tail, rest = '/' :: '/' :: tail := by
  unfold parseRest at h
  split at h
  · cases h
    exact absurd hnone hhost
  · split at h
    · cases h
    · split at h
      · next hslashes =>
        refine ⟨rest.drop 2, ?_⟩
        conv_lhs => rw [← List.take_append_drop 2 rest, hslashes.2]
        rfl
      · obtain ⟨path, _, h⟩ := bind_eq_ok.mp h
        cases h
        exact absurd hnone hhost

/-- The URL that `parse` goes on with behind the scheme. -/
def behindScheme (scheme rest : List Char) : URL where
  scheme := .ofList (scheme.map Char.toLower)
  rawQuery := .ofList (cutQuery rest).2.1
  forceQuery := (cutQuery rest).2.2

omit [Authority] in
theorem behindScheme_scheme_ne (hne : scheme ≠ []) : (behindScheme scheme rest).scheme ≠ "" := by
  intro h
  have hlist := congrArg String.toList h
  simp only [behindScheme, String.toList_ofList] at hlist
  exact hne (List.map_eq_nil_iff.mp hlist)

/-- **A URL with a scheme** is parsed behind the scheme. -/
theorem parseFragmentless_of_scheme (hctl : raw.any isCTL = false)
    (hscheme : getScheme raw = .ok (scheme, rest)) (hne : scheme ≠ []) :
    parseFragmentless raw = parseRest (behindScheme scheme rest) (cutQuery rest).1 := by
  have hstar : raw ≠ ['*'] := by
    rintro rfl
    have hnone : getScheme ['*'] = .ok ([], ['*']) := rfl
    cases hnone.symm.trans hscheme
    exact hne rfl
  unfold parseFragmentless
  rw [if_neg (by rw [hctl]; exact Bool.false_ne_true), if_neg hstar, hscheme]
  rfl

/-- A URL whose scheme is not empty has one in its text. -/
theorem scheme_of_parse (h : parseFragmentless raw = .ok u) (hscheme : u.scheme ≠ "") :
    raw.any isCTL = false ∧ ∃ scheme rest, getScheme raw = .ok (scheme, rest) ∧ scheme ≠ [] := by
  have h' := id h
  unfold parseFragmentless at h'
  split at h'
  · cases h'
  · next hctl =>
    split at h'
    · cases h'
      exact absurd rfl hscheme
    · refine ⟨Bool.eq_false_iff.mpr hctl, ?_⟩
      obtain ⟨⟨scheme, rest⟩, hsplit, hrest⟩ := bind_eq_ok.mp h'
      refine ⟨scheme, rest, hsplit, ?_⟩
      rintro rfl
      exact hscheme (parseRest_keeps hrest).1

/-- A text without `#` has no fragment. -/
theorem parse_fragmentless {text : String} (h : '#' ∉ text.toList) :
    parse text = .ok u ↔ parseFragmentless text.toList = .ok u := by
  unfold parse
  simp only [takeWhile_of_not_mem h, dropWhile_of_not_mem h]
  rw [bind_eq_ok]
  constructor
  · rintro ⟨url, hurl, h⟩
    cases h
    exact mapError_eq_ok.mp hurl
  · intro h
    exact ⟨u, mapError_eq_ok.mpr h, rfl⟩

/-- What follows `#` is the fragment. -/
theorem parse_fragment {text : String} (h : parse text = .ok u) (hnone : u.fragment = []) :
    (text.toList.dropWhile (· != '#')).drop 1 = [] := by
  unfold parse at h
  obtain ⟨url, _, h⟩ := bind_eq_ok.mp h
  split at h
  · assumption
  · obtain ⟨fragment, hfragment, h⟩ := bind_eq_ok.mp h
    cases h
    rw [show fragment = [] from hnone] at hfragment
    exact eq_nil_of_unescape (mapError_eq_ok.mp hfragment)

end URLs

end Go.Url

namespace Goca.Acme

def Service.directoryURL (s : Service) : String := s.acmeBase ++ "/directory"
def Service.newNonceURL (s : Service) : String := s.acmeBase ++ "/new-nonce"

end Goca.Acme

namespace Goca.Config

open Go.Url

/-! ## Soundness -/

/-- A path as it stands in a URL, with the bytes that it stands for. -/
structure IsPath (p : String) (bytes : List UInt8) : Prop where
  slash : p.toList.head? = some '/'
  query : '?' ∉ p.toList
  fragment : '#' ∉ p.toList
  control : p.toList.any isCTL = false
  escapes : unescape p.toList = .ok bytes

/-- The resources of the ACME server. -/
inductive Resource
  | directory | newNonce | newAccount | newOrder | revokeCert
  | account (id : Nat) | accountOrders (id : Nat) | order (id : Nat) | finalize (id : Nat)
  | authz (id : Nat) | challenge (id : Nat) | cert (id : Nat)

/-- The URL that the server gives for a resource. -/
def Resource.url (s : Acme.Service) : Resource → String
  | directory => s.directoryURL
  | newNonce => s.newNonceURL
  | newAccount => s.newAccountURL
  | newOrder => s.newOrderURL
  | revokeCert => s.revokeCertURL
  | account id => s.accountURL id
  | accountOrders id => s.accountOrdersURL id
  | order id => s.orderURL id
  | finalize id => s.finalizeURL id
  | authz id => s.authzURL id
  | challenge id => s.challengeURL id
  | cert id => s.certURL id

/-- Where the server serves a resource, under `/acme`. -/
def Resource.under : Resource → String
  | directory => "/directory"
  | newNonce => "/new-nonce"
  | newAccount => "/new-account"
  | newOrder => "/new-order"
  | revokeCert => "/revoke-cert"
  | account id => "/account/" ++ toString id
  | accountOrders id => "/account/" ++ toString id ++ "/orders"
  | order id => "/order/" ++ toString id
  | finalize id => "/order/" ++ toString id ++ "/finalize"
  | authz id => "/authz/" ++ toString id
  | challenge id => "/challenge/" ++ toString id
  | cert id => "/cert/" ++ toString id

/-- The path that the server serves a resource under. -/
def Resource.path (r : Resource) : String := "/acme" ++ r.under

section

variable [Authority]

/-- The URL `v` is `u` with more of a path, and with neither a query nor a fragment. -/
structure Extends (u v : URL) (bytes : List UInt8) : Prop where
  scheme : v.scheme = u.scheme
  host : v.host = u.host
  path : bytes <:+ v.path
  query : v.rawQuery = "" ∧ v.forceQuery = false
  fragment : v.fragment = []

/-- **A sound base URL**: normalizing it again changes nothing, every path that is appended to it
comes out of the parser as the end of a path under its scheme and host, and the URL of every
resource is such a text. -/
structure SoundBase (base : String) : Prop where
  fixed : normalizeBaseURL base = .ok base
  appended : ∃ u, parse base = .ok u ∧ ∀ p bytes, IsPath p bytes →
    ∃ v, parse (base ++ p) = .ok v ∧ Extends u v bytes
  resources : ∀ (s : Acme.Service) (r : Resource), s.caSvc.cfg.baseURL = base →
    r.url s = base ++ r.path ∧ ∃ bytes, IsPath r.path bytes

/-- The text does not end in a delimiter that stands for nothing yet, or in white space. -/
def EndsPlain (text : String) : Prop :=
  ∀ c, text.toList.getLast? = some c → c ≠ '?' ∧ c ≠ '#' ∧ Go.isSpace c = false

/-- What `NormalizeBaseURL` has seen of a text that it returns. -/
structure Accepted (base : String) (u : URL) : Prop where
  parsed : parse base = .ok u
  scheme : u.scheme = "http" ∨ u.scheme = "https"
  host : u.host ≠ []
  query : u.rawQuery = ""
  fragment : u.fragment = []

omit [Authority] in
theorem checkBaseURL_eq_ok {trimmed : String} {u : URL} : checkBaseURL trimmed u = .ok () ↔
    (u.scheme = "http" ∨ u.scheme = "https") ∧ u.host ≠ [] ∧ u.rawQuery = "" ∧
      u.fragment = [] := by
  unfold checkBaseURL
  split
  · next h =>
    have hno : ¬ (u.scheme = "http" ∨ u.scheme = "https") := not_or.mpr h
    split <;> simp [hno]
  · next h =>
    have hscheme : u.scheme = "http" ∨ u.scheme = "https" := by
      by_contra hno
      exact h (not_or.mp hno)
    split
    · next hhost => simp [hhost]
    · next hhost =>
      split
      · next hextra =>
        simp only [reduceCtorEq, false_iff, not_and]
        rintro _ _ hquery hfragment
        exact hextra.elim (fun hq => hq hquery) fun hf => hf hfragment
      · next hextra =>
        obtain ⟨hquery, hfragment⟩ := not_or.mp hextra
        simp [hscheme, hhost, not_not.mp hquery, not_not.mp hfragment]

/-- **What `NormalizeBaseURL` returns.** -/
theorem normalizeBaseURL_eq_ok {s base : String} : normalizeBaseURL s = .ok base ↔
    base = Go.trimRight (Go.trimSpace s) "/" ∧ base ≠ "" ∧ ∃ u, Accepted base u := by
  unfold normalizeBaseURL
  simp only
  split
  · next hempty =>
    constructor
    · intro h
      cases h
    · rintro ⟨rfl, hne, _⟩
      exact absurd hempty hne
  · next hne =>
    split
    · next err herr =>
      constructor
      · intro h
        cases h
      · rintro ⟨rfl, _, u, hu⟩
        cases herr.symm.trans hu.parsed
    · next u hu =>
      rw [Go.map_eq_ok]
      constructor
      · rintro ⟨_, hcheck, rfl⟩
        obtain ⟨hscheme, hhost, hquery, hfragment⟩ := checkBaseURL_eq_ok.mp hcheck
        exact ⟨rfl, hne, u, hu, hscheme, hhost, hquery, hfragment⟩
      · rintro ⟨rfl, _, v, hv⟩
        cases hu.symm.trans hv.parsed
        exact ⟨(), checkBaseURL_eq_ok.mpr ⟨hv.scheme, hv.host, hv.query, hv.fragment⟩, rfl⟩

/-! ## Appending a path -/

variable {s base p : String} {u : URL} {bytes : List UInt8}

/-- An accepted text is a scheme, a colon and a rest that is parsed behind the scheme. -/
theorem split_of_accepted (h : Accepted base u) (hfragment : '#' ∉ base.toList) :
    base.toList.any isCTL = false ∧ ∃ scheme rest, base.toList = scheme ++ ':' :: rest ∧
      scheme ≠ [] ∧ (∀ t, getScheme (scheme ++ ':' :: t) = .ok (scheme, t)) ∧
        parseRest (behindScheme scheme rest) (cutQuery rest).1 = .ok u := by
  have hparsed := (parse_fragmentless hfragment).mp h.parsed
  have hscheme : u.scheme ≠ "" := by
    rcases h.scheme with hs | hs <;> rw [hs] <;> decide
  obtain ⟨hctl, scheme, rest, hsplit, hne⟩ := scheme_of_parse hparsed hscheme
  obtain ⟨hbase, hrunes, halpha⟩ := getScheme_split hsplit hne
  refine ⟨hctl, scheme, rest, hbase, hne, getScheme_of_split hne hrunes halpha, ?_⟩
  rw [← parseFragmentless_of_scheme hctl hsplit hne]
  exact hparsed

omit [Authority] in
/-- The last rune behind the colon is the last one of the text. -/
theorem getLast?_rest {scheme rest : List Char} {c : Char} (h : rest.getLast? = some c) :
    (scheme ++ ':' :: rest).getLast? = some c := by
  have hne : rest ≠ [] := by
    rintro rfl
    cases h
  rw [List.getLast?_append_of_ne_nil _ (List.cons_ne_nil _ _), List.getLast?_cons, h]
  rfl

/-- **A path that is appended** to a text without open delimiters stays a path. -/
theorem parse_append (h : Accepted base u) (hquery : base.toList.getLast? ≠ some '?')
    (hfragment : base.toList.getLast? ≠ some '#') (hp : IsPath p bytes) :
    ∃ v, parse (base ++ p) = .ok v ∧ Extends u v bytes := by
  have hnofrag : '#' ∉ base.toList :=
    not_mem_of_cut (parse_fragment h.parsed h.fragment) hfragment
  obtain ⟨hctl, scheme, rest, hbase, hne, hscheme, hrest⟩ := split_of_accepted h hnofrag
  obtain ⟨_, hraw, _, _⟩ := parseRest_keeps hrest
  have hnoquery : '?' ∉ rest := by
    refine not_mem_of_cutQuery ?_ fun hlast => hquery ?_
    · have hlist := congrArg String.toList (hraw.symm.trans h.query)
      simpa [behindScheme] using hlist
    · rw [hbase]
      exact getLast?_rest hlast
  rw [cutQuery_of_not_mem hnoquery] at hrest
  obtain ⟨tail, htail⟩ := tail_of_host hrest rfl h.host
  have htail' : rest = '/' :: '/' :: tail := htail
  subst htail'
  obtain ⟨host, path, hhost, hpath, rfl⟩ :=
    (parseRest_authority (behindScheme_scheme_ne hne)).mp hrest
  have hlist : (base ++ p).toList = scheme ++ ':' :: '/' :: '/' :: (tail ++ p.toList) := by
    rw [String.toList_append, hbase]
    simp
  have hnoquery' : '?' ∉ '/' :: '/' :: (tail ++ p.toList) := by
    rw [← List.cons_append, ← List.cons_append, List.mem_append]
    exact not_or.mpr ⟨hnoquery, hp.query⟩
  have hnofrag' : '#' ∉ (base ++ p).toList := by
    rw [String.toList_append, List.mem_append]
    exact not_or.mpr ⟨hnofrag, hp.fragment⟩
  have hctl' : (base ++ p).toList.any isCTL = false := by
    rw [String.toList_append, List.any_append, hctl, hp.control]
    rfl
  have hscheme' : getScheme (base ++ p).toList =
      .ok (scheme, '/' :: '/' :: (tail ++ p.toList)) := by
    rw [hlist]
    exact hscheme _
  obtain ⟨htake, hdrop⟩ := takeWhile_slash (l := tail) hp.slash
  refine ⟨{ behindScheme scheme ('/' :: '/' :: (tail ++ p.toList)) with
    host, path := path ++ bytes }, ?_, ?_⟩
  · rw [parse_fragmentless hnofrag', parseFragmentless_of_scheme hctl' hscheme' hne,
      cutQuery_of_not_mem hnoquery', parseRest_authority (behindScheme_scheme_ne hne), htake, hdrop,
      unescape_append hpath, hp.escapes]
    exact ⟨host, path ++ bytes, hhost, rfl, rfl⟩
  · refine ⟨rfl, rfl, List.suffix_append path bytes, ?_, rfl⟩
    simp [behindScheme, cutQuery_of_not_mem hnoquery']

omit [Authority] in
/-- The shortest path. -/
theorem isPath_slash : IsPath "/" [47] where
  slash := rfl
  query := by decide
  fragment := by decide
  control := rfl
  escapes := rfl

/-- **Behind an empty query** a path is the query. -/
theorem not_extends_of_query (h : Accepted base u) (hlast : base.toList.getLast? = some '?')
    {v w : URL} (hv : parse (base ++ "/") = .ok v) : ¬ Extends w v [47] := by
  intro hextends
  have hnofrag : '#' ∉ base.toList := by
    refine not_mem_of_cut (parse_fragment h.parsed h.fragment) ?_
    rw [hlast]
    decide
  obtain ⟨hctl, scheme, rest, hbase, hne, hscheme, _⟩ := split_of_accepted h hnofrag
  have hmem : '?' ∈ rest := by
    rw [hbase, List.getLast?_append_of_ne_nil _ (List.cons_ne_nil _ _)] at hlast
    have hends := List.mem_of_getLast? hlast
    rcases List.mem_cons.mp hends with hcolon | hmem
    · exact absurd hcolon (by decide)
    · exact hmem
  have hlist : (base ++ "/").toList = scheme ++ ':' :: (rest ++ ['/']) := by
    rw [String.toList_append, hbase]
    simp
  have hctl' : (base ++ "/").toList.any isCTL = false := by
    rw [String.toList_append, List.any_append, hctl]
    rfl
  have hnofrag' : '#' ∉ (base ++ "/").toList := by
    rw [String.toList_append, List.mem_append]
    exact not_or.mpr ⟨hnofrag, by decide⟩
  have hscheme' : getScheme (base ++ "/").toList = .ok (scheme, rest ++ ['/']) := by
    rw [hlist]
    exact hscheme _
  rw [parse_fragmentless hnofrag', parseFragmentless_of_scheme hctl' hscheme' hne] at hv
  have hquery := (parseRest_keeps hv).2.1.symm.trans hextends.query.1
  refine cutQuery_append_ne (t := ['/']) hmem (by simp) (by decide) ?_
  simpa [behindScheme] using congrArg String.toList hquery

/-- **Behind an empty fragment** a path is the fragment. -/
theorem not_extends_of_fragment (hlast : base.toList.getLast? = some '#')
    {v w : URL} (hv : parse (base ++ "/") = .ok v) : ¬ Extends w v [47] := by
  intro hextends
  have hnone := parse_fragment hv hextends.fragment
  rw [String.toList_append] at hnone
  exact cut_append_ne (List.mem_of_getLast? hlast) (by decide) hnone

/-! ## Normalizing again -/

omit [Authority]

theorem toList_trimmed (s : String) : (Go.trimRight (Go.trimSpace s) "/").toList =
    (Go.trimRunes Go.isSpace s.toList).rdropWhile ("/".toList.contains ·) := by
  simp only [Go.trimRight, Go.trimSpace, String.toList_ofList]
  rfl

/-- What is returned does not begin with white space. -/
theorem isSpace_of_head {c : Char}
    (h : (Go.trimRight (Go.trimSpace s) "/").toList.head? = some c) : Go.isSpace c = false := by
  have hpre : (Go.trimRight (Go.trimSpace s) "/").toList <+: s.toList.dropWhile Go.isSpace := by
    rw [toList_trimmed, Go.trimRunes_eq]
    exact (List.rdropWhile_prefix _ _).trans (List.rdropWhile_prefix _ _)
  obtain ⟨t, ht⟩ := hpre
  have hhead : (s.toList.dropWhile Go.isSpace).head? = some c := by
    rw [← ht, List.head?_append, h]
    rfl
  have hnot := List.head?_dropWhile_not Go.isSpace s.toList
  rw [hhead] at hnot
  exact hnot

/-- **A text that ends plainly is not trimmed again.** -/
theorem trim_fixed (h : base = Go.trimRight (Go.trimSpace s) "/")
    (hlast : ∀ c, base.toList.getLast? = some c → Go.isSpace c = false) :
    Go.trimRight (Go.trimSpace base) "/" = base := by
  have hspace : Go.trimRunes Go.isSpace base.toList = base.toList := by
    refine Go.trimRunes_eq_self ?_ hlast
    intro c hc
    rw [h] at hc
    exact isSpace_of_head hc
  rw [← String.toList_inj, toList_trimmed, hspace]
  conv_lhs => rw [h, toList_trimmed]
  conv_rhs => rw [h, toList_trimmed]
  exact List.rdropWhile_idempotent _ _

/-- A text that is not trimmed again ends in no white space. -/
theorem isSpace_of_fixed {c : Char} (h : base = Go.trimRight (Go.trimSpace base) "/")
    (hlast : base.toList.getLast? = some c) : Go.isSpace c = false := by
  have hsub : base.toList.Sublist (Go.trimRunes Go.isSpace base.toList) := by
    conv_lhs => rw [h, toList_trimmed]
    exact (List.rdropWhile_prefix _ _).sublist
  have hspace := (Go.trimRunes_sublist Go.isSpace base.toList).antisymm hsub
  exact Go.last_of_trimmed hspace c hlast

/-! ## URLs of resources -/

/-- A rune of the paths that the server serves. -/
def isPathRune (c : Char) : Bool := c.isAlpha || c.isDigit || c == '/' || c == '-'

theorem isCTL_of_isPathRune {c : Char} (h : isPathRune c = true) : isCTL c = false := by
  have hbetween {l u : UInt32} (hl : decide (l ≤ c.val) = true) (hu : decide (c.val ≤ u) = true)
      (hlow : 32 ≤ l.toNat) (hhigh : u.toNat < 127) : 32 ≤ c.toNat ∧ c.toNat ≠ 127 := by
    have hle := UInt32.le_iff_toNat_le.mp (of_decide_eq_true hl)
    have hge := UInt32.le_iff_toNat_le.mp (of_decide_eq_true hu)
    exact ⟨hlow.trans hle, Nat.ne_of_lt (Nat.lt_of_le_of_lt hge hhigh)⟩
  have hval : 32 ≤ c.toNat ∧ c.toNat ≠ 127 := by
    simp only [isPathRune, Bool.or_eq_true, beq_iff_eq] at h
    rcases h with ((halpha | hdigit) | rfl) | rfl
    · rcases Bool.or_eq_true_iff.mp halpha with hupper | hlower
      · have hand := of_decide_eq_true hupper
        exact hbetween (decide_eq_true hand.1) (decide_eq_true hand.2) (by decide) (by decide)
      · have hand := Bool.and_eq_true_iff.mp hlower
        exact hbetween (l := 'a'.val) (u := 'z'.val) hand.1 hand.2 (by decide) (by decide)
    · have hand := Bool.and_eq_true_iff.mp hdigit
      exact hbetween (l := '0'.val) (u := '9'.val) hand.1 hand.2 (by decide) (by decide)
    · decide
    · decide
  simp only [isCTL, Bool.or_eq_false_iff, decide_eq_false_iff_not, beq_eq_false_iff_ne]
  refine ⟨fun hlt => ?_, fun heq => hval.2 (congrArg UInt32.toNat heq)⟩
  exact absurd hval.1 (Nat.not_le_of_lt hlt)

/-- A path of such runes. -/
theorem isPath_of_runes (hslash : p.toList.head? = some '/')
    (h : p.toList.all isPathRune = true) : ∃ bytes, IsPath p bytes := by
  rw [List.all_eq_true] at h
  have hno : ∀ c, isPathRune c = false → c ∉ p.toList := by
    intro c hc hmem
    exact Bool.false_ne_true (hc.symm.trans (h c hmem))
  refine ⟨_, hslash, hno _ (by decide), hno _ (by decide), ?_, unescape_plain (hno _ (by decide))⟩
  rw [List.any_eq_false]
  intro c hmem
  rw [isCTL_of_isPathRune (h c hmem)]
  exact Bool.false_ne_true

theorem runes_append {a b : String} (ha : a.toList.all isPathRune = true)
    (hb : b.toList.all isPathRune = true) : (a ++ b).toList.all isPathRune = true := by
  rw [String.toList_append, List.all_append, ha, hb]
  rfl

theorem runes_number (id : Nat) : (toString id).toList.all isPathRune = true := by
  rw [List.all_eq_true]
  intro c hc
  simp [isPathRune, Go.isDigit_of_mem_toString hc]

/-- The texts that paths are made of. -/
theorem runes_text : ∀ t ∈ ["/acme", "/directory", "/new-nonce", "/new-account", "/new-order",
    "/revoke-cert", "/account/", "/orders", "/order/", "/finalize", "/authz/", "/challenge/",
    "/cert/"], t.toList.all isPathRune = true := by
  decide +kernel

theorem Resource.runes_under (r : Resource) : r.under.toList.all isPathRune = true := by
  have hnumbered {t : String} (ht : t.toList.all isPathRune = true) (id : Nat) :
      (t ++ toString id).toList.all isPathRune = true := runes_append ht (runes_number id)
  cases r with
  | account id => exact hnumbered (runes_text _ (by simp)) id
  | accountOrders id =>
    exact runes_append (hnumbered (runes_text _ (by simp)) id) (runes_text _ (by simp))
  | order id => exact hnumbered (runes_text _ (by simp)) id
  | finalize id =>
    exact runes_append (hnumbered (runes_text _ (by simp)) id) (runes_text _ (by simp))
  | authz id => exact hnumbered (runes_text _ (by simp)) id
  | challenge id => exact hnumbered (runes_text _ (by simp)) id
  | cert id => exact hnumbered (runes_text _ (by simp)) id
  | _ => exact runes_text _ (by simp [Resource.under])

/-- The path of a resource is a path. -/
theorem Resource.isPath (r : Resource) : ∃ bytes, IsPath r.path bytes := by
  refine isPath_of_runes ?_ (runes_append (runes_text _ (by simp)) r.runes_under)
  rw [Resource.path, String.toList_append]
  rfl

/-- **The URL of a resource** is the base with the path of the resource behind it. -/
theorem Resource.url_eq {s : Acme.Service} (r : Resource)
    (h : Go.trimRight s.caSvc.cfg.baseURL "/" = s.caSvc.cfg.baseURL) :
    r.url s = s.caSvc.cfg.baseURL ++ r.path := by
  have hurl : r.url s = s.acmeBase ++ r.under := by
    cases r with
    | account id => exact String.append_assoc
    | order id => exact String.append_assoc
    | authz id => exact String.append_assoc
    | challenge id => exact String.append_assoc
    | cert id => exact String.append_assoc
    | accountOrders id =>
      show s.acmeBase ++ "/account/" ++ toString id ++ "/orders" =
        s.acmeBase ++ ("/account/" ++ toString id ++ "/orders")
      simp only [String.append_assoc]
    | finalize id =>
      show s.acmeBase ++ "/order/" ++ toString id ++ "/finalize" =
        s.acmeBase ++ ("/order/" ++ toString id ++ "/finalize")
      simp only [String.append_assoc]
    | _ => rfl
  rw [hurl, Acme.Service.acmeBase, h, String.append_assoc]
  rfl

end

/-! ## The base URL -/

/-- **When a base URL is sound**: a text that `NormalizeBaseURL` accepts has to end, without the
white space around it and the slashes behind it, in neither `?`, `#` nor white space. -/
theorem soundBase_iff [Authority] (s base : String) (h : normalizeBaseURL s = .ok base) :
    SoundBase base ↔ EndsPlain (Go.trimRight (Go.trimSpace s) "/") := by
  obtain ⟨hbase, hne, u, hu⟩ := normalizeBaseURL_eq_ok.mp h
  rw [← hbase]
  constructor
  · rintro ⟨hfixed, ⟨w, _, happended⟩, _⟩ c hlast
    obtain ⟨v, hv, hextends⟩ := happended "/" [47] isPath_slash
    refine ⟨?_, ?_, isSpace_of_fixed (normalizeBaseURL_eq_ok.mp hfixed).1 hlast⟩
    · rintro rfl
      exact not_extends_of_query hu hlast hv hextends
    · rintro rfl
      exact not_extends_of_fragment hlast hv hextends
  · intro hplain
    have hquery : base.toList.getLast? ≠ some '?' := fun hlast => (hplain _ hlast).1 rfl
    have hfragment : base.toList.getLast? ≠ some '#' := fun hlast => (hplain _ hlast).2.1 rfl
    have hfixed : Go.trimRight (Go.trimSpace base) "/" = base :=
      trim_fixed hbase fun c hlast => (hplain c hlast).2.2
    refine ⟨normalizeBaseURL_eq_ok.mpr ⟨hfixed.symm, hne, u, hu⟩, ⟨u, hu.parsed, ?_⟩, ?_⟩
    · intro p bytes hp
      exact parse_append hu hquery hfragment hp
    · rintro service r rfl
      refine ⟨r.url_eq ?_, r.isPath⟩
      rw [← String.toList_inj]
      conv_lhs => rw [hbase, Go.trimRight, String.toList_ofList, toList_trimmed]
      conv_rhs => rw [hbase, toList_trimmed]
      exact List.rdropWhile_idempotent _ _

section Samples

attribute [local instance] plainAuthority

/-- What two base URLs are read as: one with a path prefix, one with an empty query. -/
theorem samples_read :
    normalizeBaseURL " https://ca.internal/goca/ " = .ok "https://ca.internal/goca" ∧
      (Go.trimRight (Go.trimSpace " https://ca.internal/goca/ ") "/").toList.getLast? = some 'a' ∧
    normalizeBaseURL "https://ca.internal?" = .ok "https://ca.internal?" ∧
      ((parse ("https://ca.internal?" ++ "/")).map URL.rawQuery) = .ok "/" := by
  decide +kernel

/-- A base URL with a path prefix is sound. -/
theorem prefixed_sound : normalizeBaseURL " https://ca.internal/goca/ " =
      .ok "https://ca.internal/goca" ∧ SoundBase "https://ca.internal/goca" := by
  obtain ⟨hnormalized, hends, _, _⟩ := samples_read
  refine ⟨hnormalized, (soundBase_iff _ _ hnormalized).mpr ?_⟩
  intro c hc
  cases hends.symm.trans hc
  decide

/-- **An empty query is accepted**, and takes in every path that is appended. -/
theorem emptyQuery_unsound : normalizeBaseURL "https://ca.internal?" = .ok "https://ca.internal?" ∧
    ¬ SoundBase "https://ca.internal?" := by
  obtain ⟨_, _, hnormalized, hquery⟩ := samples_read
  refine ⟨hnormalized, ?_⟩
  rintro ⟨_, ⟨w, _, happended⟩, _⟩
  obtain ⟨v, hv, hextends⟩ := happended "/" [47] isPath_slash
  rw [hv] at hquery
  exact absurd ((Except.ok.inj hquery).symm.trans hextends.query.1) (by decide)

end Samples

end Goca.Config
