import Mathlib.Data.List.Infix
import Goca.Go.Decimal
import Goca.Pki.Subject

/-!
# Addresses are read back

`net.IP.String` and `net.ParseIP` are inverse to each other on addresses: an address that is written
into a certificate row comes back as itself. The text of an IPv4 address is four decimal numbers
between dots. The text of an IPv6 address is eight hexadecimal groups, where one run of zero groups
may be elided; the parser puts as many zeros back as are missing.

The other direction, which texts are addresses at all, is `rune_of_parseIP`: nothing that the parser
accepts has a rune beside digits, dots and colons.
-/

set_option autoImplicit false

namespace Goca.Pki

open Go (IP)

/-- An IP address: eight groups of 16 bits. -/
def IsAddress (ip : IP) : Prop := ip.length = 8 ∧ ∀ g ∈ ip, g < 65536

/-! ## Decimal octets -/

theorem parseOctet_toString : ∀ n < 256, Go.parseOctet (Nat.toDigits 10 n) = some n := by
  decide +kernel

/-- Four octets between dots are read back. -/
theorem parseIPv4Fields_join {a b c d : Nat} (ha : a < 256) (hb : b < 256) (hc : c < 256)
    (hd : d < 256) :
    Go.parseIPv4Fields (['.'].intercalate ([a, b, c, d].map (Nat.toDigits 10))) =
      some [a * 256 + b, c * 256 + d] := by
  have hdots : ∀ l ∈ [a, b, c, d].map (Nat.toDigits 10), '.' ∉ l := by
    intro l hl hdot
    obtain ⟨n, _, rfl⟩ := List.mem_map.mp hl
    exact absurd (Nat.isDigit_of_mem_toDigits (by decide) (by decide) hdot) (by decide)
  unfold Go.parseIPv4Fields
  rw [List.splitOn_intercalate '.' hdots (by simp)]
  simp only [List.map_cons, List.map_nil, parseOctet_toString _ ha, parseOctet_toString _ hb,
    parseOctet_toString _ hc, parseOctet_toString _ hd]

/-! ## Hexadecimal groups -/

/-- The value of a list of digits, most significant first. -/
def hexFold (ds : List Nat) : Nat := ds.foldl (fun n d => n * 16 + d) 0

theorem hexFold_append (ds : List Nat) (d : Nat) : hexFold (ds ++ [d]) = hexFold ds * 16 + d := by
  unfold hexFold
  rw [List.foldl_append]
  rfl

/-- The digits of a number have its value, and few numbers need many of them. -/
theorem hexDigits_value (k n : Nat) (hn : n < 16 ^ (k + 1)) :
    ∃ ds : List Nat, Go.hexDigits n = ds.map Nat.digitChar ∧ (∀ d ∈ ds, d < 16) ∧ ds ≠ [] ∧
      hexFold ds = n ∧ ds.length ≤ k + 1 := by
  induction k generalizing n with
  | zero =>
    refine ⟨[n], Nat.toDigits_of_lt_base hn, ?_, List.cons_ne_nil _ _, ?_, Nat.le_refl 1⟩
    · intro d hd
      rw [List.mem_singleton.mp hd]
      exact hn
    · show 0 * 16 + n = n
      omega
  | succ k ih =>
    by_cases hsmall : n < 16
    · refine ⟨[n], Nat.toDigits_of_lt_base hsmall, ?_, List.cons_ne_nil _ _, ?_, by simp⟩
      · intro d hd
        rw [List.mem_singleton.mp hd]
        exact hsmall
      · show 0 * 16 + n = n
        omega
    · have hdiv : n / 16 < 16 ^ (k + 1) := by
        rw [Nat.div_lt_iff_lt_mul (by decide)]
        exact hn
      obtain ⟨ds, hds, hlt, hne, hval, hlen⟩ := ih (n / 16) hdiv
      have hmod : n % 16 < 16 := Nat.mod_lt n (by decide)
      refine ⟨ds ++ [n % 16], ?_, ?_, by simp, ?_, by simp; omega⟩
      · rw [List.map_append, List.map_singleton, ← hds]
        show Nat.toDigits 16 n = Nat.toDigits 16 (n / 16) ++ [(n % 16).digitChar]
        rw [← Nat.toDigits_of_lt_base (b := 16) hmod,
          Nat.toDigits_append_toDigits (by decide) (by omega) hmod, Nat.div_add_mod]
      · intro d hd
        rcases List.mem_append.mp hd with hd | hd
        · exact hlt d hd
        · rw [List.mem_singleton.mp hd]
          exact hmod
      · rw [hexFold_append, hval, Nat.mul_comm, Nat.div_add_mod]

/-- Whether a text goes on with no hexadecimal digit. -/
def NoHex (s : List Char) : Prop := ∀ c ∈ s.head?, Go.hexValue c = none

/-- The text of a group is read as its digits, up to where it ends. -/
theorem hexGroup_map {ds : List Nat} (hds : ∀ d ∈ ds, d < 16) {s : List Char} (hs : NoHex s) :
    Go.hexGroup (ds.map Nat.digitChar ++ s) = (ds, s) := by
  have htake : (ds.map Nat.digitChar ++ s).takeWhile (fun c => (Go.hexValue c).isSome) =
      ds.map Nat.digitChar := by
    induction ds with
    | nil =>
      cases s with
      | nil => rfl
      | cons c s =>
        rw [List.map_nil, List.nil_append, List.takeWhile_cons, hs c rfl]
        rfl
    | cons d ds ih =>
      rw [List.map_cons, List.cons_append, List.takeWhile_cons,
        Go.hexValue_digitChar d (hds d List.mem_cons_self)]
      exact congrArg _ (ih fun d hd => hds d (List.mem_cons_of_mem _ hd))
  have hvalues : (ds.map Nat.digitChar).filterMap Go.hexValue = ds := by
    rw [List.filterMap_map]
    refine (List.filterMap_congr fun d hd => ?_).trans List.filterMap_some
    exact Go.hexValue_digitChar d (hds d hd)
  unfold Go.hexGroup
  simp only [htake, hvalues, List.drop_left]

/-- The text of some groups. -/
def groupsText (gs : List Nat) : List Char := [':'].intercalate (gs.map Go.hexDigits)

theorem groupsText_cons (g h : Nat) (gs : List Nat) :
    groupsText (g :: h :: gs) = Go.hexDigits g ++ ':' :: groupsText (h :: gs) := by
  simp [groupsText, List.intercalate]

/-- A group begins with a hexadecimal digit. -/
theorem groupsText_head {g : Nat} (hg : g < 65536) (gs : List Nat) (s : List Char) :
    ∃ d t, groupsText (g :: gs) ++ s = Nat.digitChar d :: t ∧ d < 16 := by
  obtain ⟨ds, hds, hlt, hne, _, _⟩ := hexDigits_value 3 g hg
  obtain ⟨d, ds, rfl⟩ := List.exists_cons_of_ne_nil hne
  cases gs with
  | nil =>
    refine ⟨d, ds.map Nat.digitChar ++ s, ?_, hlt d List.mem_cons_self⟩
    simp [groupsText, List.intercalate, hds]
  | cons h gs =>
    refine ⟨d, ds.map Nat.digitChar ++ ':' :: groupsText (h :: gs) ++ s, ?_,
      hlt d List.mem_cons_self⟩
    rw [groupsText_cons, hds]
    rfl

/-- A digit is no colon. -/
theorem digitChar_ne_colon : ∀ d < 16, Nat.digitChar d ≠ ':' ∧ Nat.digitChar d ≠ '.' := by decide

/-! ## The loop of the parser -/

/-- The last group. -/
theorem loop_last {g : Nat} (hg : g < 65536) (fuel : Nat) (acc : List Nat) (e : Option Nat) :
    Go.parseIPv6Loop (fuel + 1) (Go.hexDigits g) acc e = some (acc ++ [g], e) := by
  obtain ⟨ds, hds, hlt, hne, hval, hlen⟩ := hexDigits_value 3 g hg
  obtain ⟨d, ds, rfl⟩ := List.exists_cons_of_ne_nil hne
  have hgroup := hexGroup_map hlt (s := []) fun c hc => nomatch hc
  rw [List.append_nil, ← hds] at hgroup
  unfold Go.parseIPv6Loop
  rw [hgroup]
  dsimp only
  rw [if_neg (by omega)]
  show some (acc ++ [hexFold (d :: ds)], e) = _
  rw [hval]

/-- A group before another one. -/
theorem loop_colon {g : Nat} (hg : g < 65536) (fuel : Nat) (acc : List Nat) (e : Option Nat)
    {d : Nat} (hd : d < 16) (t : List Char) :
    Go.parseIPv6Loop (fuel + 1) (Go.hexDigits g ++ ':' :: Nat.digitChar d :: t) acc e =
      Go.parseIPv6Loop fuel (Nat.digitChar d :: t) (acc ++ [g]) e := by
  obtain ⟨ds, hds, hlt, hne, hval, hlen⟩ := hexDigits_value 3 g hg
  obtain ⟨d', ds, rfl⟩ := List.exists_cons_of_ne_nil hne
  have hgroup := hexGroup_map hlt (s := ':' :: Nat.digitChar d :: t) (by
    intro c hc
    cases hc
    decide)
  rw [← hds] at hgroup
  conv => lhs; unfold Go.parseIPv6Loop
  rw [hgroup]
  dsimp only
  rw [if_neg (by omega)]
  have hne := (digitChar_ne_colon d hd).1
  split
  · next h => cases h
  · next h => cases h
  · next h => cases h
  · next h =>
    injection h with _ h
    injection h with h _
    exact absurd h hne
  · next t' _ _ h =>
    injection h with _ h
    rw [← h]
    show Go.parseIPv6Loop fuel _ (acc ++ [hexFold (d' :: ds)]) e = _
    rw [hval]
  · next h => exact absurd rfl (h _)

/-- A group before the ellipsis. -/
theorem loop_ellipsis {g : Nat} (hg : g < 65536) (fuel : Nat) (acc : List Nat) (t : List Char) :
    Go.parseIPv6Loop (fuel + 1) (Go.hexDigits g ++ ':' :: ':' :: t) acc none =
      if t.isEmpty then some (acc ++ [g], some (acc.length + 1))
      else Go.parseIPv6Loop fuel t (acc ++ [g]) (some (acc.length + 1)) := by
  obtain ⟨ds, hds, hlt, hne, hval, hlen⟩ := hexDigits_value 3 g hg
  obtain ⟨d', ds, rfl⟩ := List.exists_cons_of_ne_nil hne
  have hgroup := hexGroup_map hlt (s := ':' :: ':' :: t) (by
    intro c hc
    cases hc
    decide)
  rw [← hds] at hgroup
  conv => lhs; unfold Go.parseIPv6Loop
  rw [hgroup]
  dsimp only
  rw [if_neg (by omega)]
  show (if (none : Option Nat).isSome = true then none
    else if t.isEmpty then some (acc ++ [hexFold (d' :: ds)], some (acc.length + 1))
    else Go.parseIPv6Loop fuel t (acc ++ [hexFold (d' :: ds)]) (some (acc.length + 1))) = _
  rw [hval]
  rfl

/-- Groups between colons are read in turn. -/
theorem loop_groups {gs : List Nat} (hgs : ∀ g ∈ gs, g < 65536) (hne : gs ≠ []) (fuel : Nat)
    (hfuel : gs.length ≤ fuel) (acc : List Nat) (e : Option Nat) :
    Go.parseIPv6Loop fuel (groupsText gs) acc e = some (acc ++ gs, e) := by
  induction gs generalizing fuel acc with
  | nil => exact absurd rfl hne
  | cons g gs ih =>
    obtain ⟨fuel, rfl⟩ : ∃ n, fuel = n + 1 := ⟨fuel - 1, by rw [List.length_cons] at hfuel; omega⟩
    have hg := hgs g List.mem_cons_self
    cases gs with
    | nil =>
      show Go.parseIPv6Loop _ ([':'].intercalate [Go.hexDigits g]) acc e = _
      rw [show [':'].intercalate [Go.hexDigits g] = Go.hexDigits g by simp [List.intercalate]]
      exact loop_last hg fuel acc e
    | cons h gs =>
      have hgs' : ∀ x ∈ h :: gs, x < 65536 := fun x hx => hgs x (List.mem_cons_of_mem _ hx)
      obtain ⟨d, t, ht, hd⟩ := groupsText_head (hgs' h List.mem_cons_self) gs []
      rw [List.append_nil] at ht
      rw [groupsText_cons, ht, loop_colon hg fuel acc e hd, ← ht,
        ih hgs' (List.cons_ne_nil _ _) fuel (by rw [List.length_cons] at hfuel; omega),
        List.append_assoc]
      rfl

/-- Groups before an ellipsis, and the groups after it. -/
theorem loop_elided {gs hs : List Nat} (hgs : ∀ g ∈ gs, g < 65536) (hhs : ∀ g ∈ hs, g < 65536)
    (hne : gs ≠ []) (fuel : Nat) (hfuel : gs.length + hs.length ≤ fuel) (acc : List Nat) :
    Go.parseIPv6Loop fuel (groupsText gs ++ ':' :: ':' :: groupsText hs) acc none =
      some (acc ++ gs ++ hs, some (acc.length + gs.length)) := by
  induction gs generalizing fuel acc with
  | nil => exact absurd rfl hne
  | cons g gs ih =>
    obtain ⟨fuel, rfl⟩ : ∃ n, fuel = n + 1 := ⟨fuel - 1, by rw [List.length_cons] at hfuel; omega⟩
    rw [List.length_cons] at hfuel
    have hg := hgs g List.mem_cons_self
    cases gs with
    | nil =>
      rw [show groupsText [g] = Go.hexDigits g by simp [groupsText, List.intercalate],
        loop_ellipsis hg]
      cases hs with
      | nil => simp [groupsText, List.intercalate]
      | cons h hs =>
        obtain ⟨d, t, ht, _⟩ := groupsText_head (hhs h List.mem_cons_self) hs []
        rw [List.append_nil] at ht
        rw [if_neg (by rw [ht]; simp), loop_groups hhs (List.cons_ne_nil _ _) fuel (by
          rw [List.length_nil, Nat.zero_add] at hfuel
          omega)]
        rfl
    | cons h gs =>
      have hgs' : ∀ x ∈ h :: gs, x < 65536 := fun x hx => hgs x (List.mem_cons_of_mem _ hx)
      obtain ⟨d, t, ht, hd⟩ := groupsText_head (hgs' h List.mem_cons_self) gs
        (':' :: ':' :: groupsText hs)
      rw [groupsText_cons, List.append_assoc, List.cons_append, ht, loop_colon hg fuel acc none hd,
        ← ht, ih hgs' (List.cons_ne_nil _ _) fuel (by omega), List.append_assoc acc,
        List.length_append, List.length_cons, List.length_cons]
      congr 3
      simp only [List.length_cons, List.length_nil]
      omega

/-! ## The elided zeros -/

/-- A list begins with its run of zeros. -/
theorem zeroRun_eq (l : List Nat) :
    l = List.replicate (zeroRun l) 0 ++ l.drop (zeroRun l) ∧ zeroRun l ≤ l.length := by
  induction l with
  | nil => exact ⟨rfl, Nat.le_refl 0⟩
  | cons g l ih =>
    by_cases hg : g = 0
    · subst hg
      have hrun : zeroRun (0 :: l) = zeroRun l + 1 := by simp [zeroRun]
      rw [hrun, List.replicate_succ, List.drop_succ_cons, List.cons_append, ← ih.1,
        List.length_cons]
      exact ⟨rfl, Nat.succ_le_succ ih.2⟩
    · have hrun : zeroRun (g :: l) = 0 := by simp [zeroRun, hg]
      rw [hrun]
      exact ⟨rfl, Nat.zero_le _⟩

/-- The elided run is one of zeros. -/
theorem longestZeros_eq {ip : IP} {i n : Nat} (h : longestZeros ip = some (i, n)) :
    2 ≤ n ∧ n = zeroRun (ip.drop i) := by
  suffices hinv : ∀ b : Option (Nat × Nat), longestZeros ip = b →
      ∀ i n, b = some (i, n) → 2 ≤ n ∧ n = zeroRun (ip.drop i) from hinv _ h i n rfl
  rintro b rfl
  unfold longestZeros
  refine List.foldlRecOn (motive := fun b => ∀ i n, b = some (i, n) →
    2 ≤ n ∧ n = zeroRun (ip.drop i)) (List.range ip.length) _ (fun _ _ h => by cases h) ?_
  intro best hbest j _ i n h
  dsimp only at h
  split at h
  · next hn =>
    cases h
    exact ⟨hn.1, rfl⟩
  · exact hbest i n h

theorem longestZeros_split {ip : IP} {i n : Nat} (h : longestZeros ip = some (i, n)) :
    2 ≤ n ∧ ip = ip.take i ++ List.replicate n 0 ++ ip.drop (i + n) := by
  obtain ⟨hn, hrun⟩ := longestZeros_eq h
  refine ⟨hn, ?_⟩
  rw [hrun, List.append_assoc, ← List.drop_drop, ← (zeroRun_eq (ip.drop i)).1,
    List.take_append_drop]

/-! ## Round trip -/

/-- The first rune of a text that a test accepts, where it accepts no other one. -/
theorem find?_only {p : Char → Bool} {s : List Char} {c : Char} (hc : c ∈ s) (hp : p c = true)
    (honly : ∀ d ∈ s, p d = true → d = c) : s.find? p = some c := by
  cases hfind : s.find? p with
  | none => exact absurd hp (by simpa using List.find?_eq_none.mp hfind c hc)
  | some d => rw [honly d (List.mem_of_find?_eq_some hfind) (List.find?_some hfind)]

/-- The runes between which `net.ParseIP` decides. -/
def decides (c : Char) : Bool := c == '.' || c == ':' || c == '%'

theorem decides_digitChar : ∀ d < 16, decides (Nat.digitChar d) = false := by decide

/-- A decimal digit decides nothing. -/
theorem decides_isDigit {c : Char} (h : c.isDigit = true) : ¬ decides c = true := by
  intro hd
  simp only [decides, Bool.or_eq_true, beq_iff_eq] at hd
  rcases hd with (rfl | rfl) | rfl <;> exact absurd h (by decide)

/-- What a joined text consists of. -/
theorem mem_intercalate {sep c : Char} {ls : List (List Char)} (hc : c ∈ [sep].intercalate ls) :
    c = sep ∨ ∃ l ∈ ls, c ∈ l := by
  induction ls with
  | nil => simp [List.intercalate] at hc
  | cons l ls ih =>
    cases ls with
    | nil => exact .inr ⟨l, List.mem_cons_self, by simpa [List.intercalate] using hc⟩
    | cons m ls =>
      have hc : c ∈ l ++ sep :: [sep].intercalate (m :: ls) := by
        simpa [List.intercalate] using hc
      rcases List.mem_append.mp hc with hc | hc
      · exact .inr ⟨l, List.mem_cons_self, hc⟩
      · rcases List.mem_cons.mp hc with rfl | hc
        · exact .inl rfl
        · rcases ih hc with h | ⟨x, hx, h⟩
          · exact .inl h
          · exact .inr ⟨x, List.mem_cons_of_mem _ hx, h⟩

/-- What is joined is in the joined text. -/
theorem mem_intercalate_of_mem {sep c : Char} {ls : List (List Char)} {l : List Char} (hl : l ∈ ls)
    (hc : c ∈ l) : c ∈ [sep].intercalate ls := by
  induction ls with
  | nil => cases hl
  | cons m ls ih =>
    cases ls with
    | nil =>
      obtain rfl := List.mem_singleton.mp hl
      simpa [List.intercalate] using hc
    | cons n ls =>
      rw [List.intercalate_cons_cons]
      rcases List.mem_cons.mp hl with rfl | hl
      · exact List.mem_append_left _ (List.mem_append_left _ hc)
      · exact List.mem_append_right _ (ih hl)

/-- What a text contains it is made of. -/
theorem mem_of_contains {s sub : String} (h : Go.contains s sub = true) {c : Char}
    (hc : c ∈ sub.toList) : c ∈ s.toList := by
  obtain ⟨tail, htail, hprefix⟩ := List.any_eq_true.mp h
  exact ((List.mem_tails _ _).mp htail).subset ((List.isPrefixOf_iff_prefix.mp hprefix).subset hc)

/-- The text of groups has nothing but hexadecimal digits and colons. -/
theorem mem_groupsText {gs : List Nat} (hgs : ∀ g ∈ gs, g < 65536) {c : Char}
    (hc : c ∈ groupsText gs) : c = ':' ∨ ∃ d < 16, c = Nat.digitChar d := by
  rcases mem_intercalate hc with h | ⟨l, hl, h⟩
  · exact .inl h
  · obtain ⟨g, hg, rfl⟩ := List.mem_map.mp hl
    obtain ⟨ds, hds, hlt, _⟩ := hexDigits_value 3 g (hgs g hg)
    rw [hds] at h
    obtain ⟨d, hd, rfl⟩ := List.mem_map.mp h
    exact .inr ⟨d, hlt d hd, rfl⟩

/-- A text of hexadecimal digits and colons is read as an IPv6 address. -/
theorem parseIP_colon {s : String} (hc : ':' ∈ s.toList)
    (hs : ∀ c ∈ s.toList, c = ':' ∨ ∃ d < 16, c = Nat.digitChar d) :
    Go.parseIP s = Go.parseIPv6 s.toList := by
  have hfind : s.toList.find? (fun c => c == '.' || c == ':' || c == '%') = some ':' := by
    refine find?_only hc rfl ?_
    intro c hmem hp
    rcases hs c hmem with rfl | ⟨d, hd, rfl⟩
    · rfl
    · exact absurd hp (Bool.eq_false_iff.mp (decides_digitChar d hd))
  unfold Go.parseIP
  rw [hfind]
  rfl

theorem toList_groups (gs : List Nat) :
    (Go.join (gs.map fun x => .ofList (Go.hexDigits x)) ":").toList = groupsText gs := by
  unfold Go.join groupsText
  rw [String.toList_intercalate, List.map_map]
  congr 1
  refine List.map_congr_left fun g _ => ?_
  exact String.toList_ofList

/-- Groups without an ellipsis. -/
theorem parseIPv6_groups {ip : IP} (hip : IsAddress ip) :
    Go.parseIPv6 (groupsText ip) = some ip := by
  obtain ⟨hlen, hlt⟩ := hip
  obtain ⟨g, gs, rfl⟩ := List.exists_cons_of_ne_nil (l := ip) (by rintro rfl; cases hlen)
  obtain ⟨d, t, ht, hd⟩ := groupsText_head (hlt g List.mem_cons_self) gs []
  rw [List.append_nil] at ht
  have hcolon := (digitChar_ne_colon d hd).1
  unfold Go.parseIPv6
  split
  · next h =>
    rw [ht] at h
    injection h with h
    exact absurd h hcolon
  · next h =>
    rw [ht] at h
    injection h with h
    exact absurd h hcolon
  · rw [loop_groups hlt (List.cons_ne_nil _ _) 8 (Nat.le_of_eq hlen)]
    show Go.expandEllipsis ([] ++ (g :: gs), none) = _
    unfold Go.expandEllipsis
    rw [List.nil_append]
    exact if_pos hlen

/-- Groups around an ellipsis. -/
theorem parseIPv6_elided {gs hs : List Nat} {n : Nat} (hgs : ∀ g ∈ gs, g < 65536)
    (hhs : ∀ g ∈ hs, g < 65536) (hn : 2 ≤ n) (hlen : gs.length + n + hs.length = 8) :
    Go.parseIPv6 (groupsText gs ++ ':' :: ':' :: groupsText hs) =
      some (gs ++ List.replicate n 0 ++ hs) := by
  have hexpand : Go.expandEllipsis (gs ++ hs, some gs.length) =
      some (gs ++ List.replicate n 0 ++ hs) := by
    have hshort : (gs ++ hs).length < 8 := by
      rw [List.length_append]
      omega
    unfold Go.expandEllipsis
    dsimp only
    rw [if_pos hshort, List.take_left' rfl, List.drop_left' rfl, List.length_append,
      show 8 - (gs.length + hs.length) = n by omega]
  cases gs with
  | nil =>
    cases hs with
    | nil =>
      obtain rfl : n = 8 := by simpa using hlen
      rfl
    | cons h hs =>
      obtain ⟨d, t, ht, _⟩ := groupsText_head (hhs h List.mem_cons_self) hs []
      rw [List.append_nil] at ht
      have hloop := loop_groups hhs (List.cons_ne_nil _ _) 8 (by
        simp only [List.length_nil] at hlen
        omega) [] (some 0)
      rw [ht] at hloop ⊢
      show (Go.parseIPv6Loop 8 (Nat.digitChar d :: t) [] (some 0)).bind Go.expandEllipsis = _
      rw [hloop]
      exact hexpand
  | cons g gs =>
    obtain ⟨d, t, ht, hd⟩ := groupsText_head (hgs g List.mem_cons_self) gs
      (':' :: ':' :: groupsText hs)
    have hcolon := (digitChar_ne_colon d hd).1
    unfold Go.parseIPv6
    split
    · next h =>
      rw [ht] at h
      injection h with h
      exact absurd h hcolon
    · next h =>
      rw [ht] at h
      injection h with h
      exact absurd h hcolon
    · rw [loop_elided hgs hhs (List.cons_ne_nil _ _) 8 (by omega), List.nil_append,
        List.length_nil, Nat.zero_add]
      exact hexpand

/-- **An address comes back as itself.** -/
theorem parseIP_ipText {ip : IP} (hip : IsAddress ip) : Go.parseIP (ipText ip) = some ip := by
  have hlt := hip.2
  unfold ipText
  dsimp only
  split
  · next a b =>
    have ha : a < 65536 := hlt a (by simp)
    have hb : b < 65536 := hlt b (by simp)
    have htext : (Go.join ([a / 256, a % 256, b / 256, b % 256].map toString) ".").toList =
        ['.'].intercalate ([a / 256, a % 256, b / 256, b % 256].map (Nat.toDigits 10)) := by
      unfold Go.join
      rw [String.toList_intercalate, List.map_map]
      congr 1
      refine List.map_congr_left fun n _ => ?_
      exact Go.toList_toString n
    have hfields := parseIPv4Fields_join (a := a / 256) (b := a % 256) (c := b / 256)
      (d := b % 256) (by omega) (by omega) (by omega) (by omega)
    have hfind : (Go.join ([a / 256, a % 256, b / 256, b % 256].map toString) ".").toList.find?
        (fun c => c == '.' || c == ':' || c == '%') = some '.' := by
      rw [htext]
      refine find?_only (by simp [List.intercalate]) rfl ?_
      intro c hc hp
      rcases mem_intercalate hc with h | ⟨l, hl, h⟩
      · exact h
      · obtain ⟨n, _, rfl⟩ := List.mem_map.mp hl
        exact absurd hp (decides_isDigit (Nat.isDigit_of_mem_toDigits (by decide) (by decide) h))
    unfold Go.parseIP
    rw [hfind]
    show (Go.parseIPv4Fields _).map _ = _
    rw [htext, hfields]
    simp only [Option.map_some, List.cons_append, List.nil_append, Nat.div_add_mod']
  · next hmapped =>
    cases hzeros : longestZeros ip with
    | none =>
      have htext := toList_groups ip
      show Go.parseIP (Go.join (ip.map fun x => .ofList (Go.hexDigits x)) ":") = _
      rw [parseIP_colon ?_ ?_, htext, parseIPv6_groups hip]
      · rw [htext]
        obtain ⟨g, h, gs, rfl⟩ : ∃ g h gs, ip = g :: h :: gs := by
          rcases ip with _ | ⟨g, _ | ⟨h, gs⟩⟩
          · cases hip.1
          · cases hip.1
          · exact ⟨g, h, gs, rfl⟩
        rw [groupsText_cons]
        exact List.mem_append_right _ List.mem_cons_self
      · intro c hc
        rw [htext] at hc
        exact mem_groupsText hlt hc
    | some r =>
      obtain ⟨i, n⟩ := r
      obtain ⟨hn, hsplit⟩ := longestZeros_split hzeros
      have htake : ∀ g ∈ ip.take i, g < 65536 := fun g hg => hlt g (List.mem_of_mem_take hg)
      have hdrop : ∀ g ∈ ip.drop (i + n), g < 65536 := fun g hg => hlt g (List.mem_of_mem_drop hg)
      have hlen : (ip.take i).length + n + (ip.drop (i + n)).length = 8 := by
        have h := congrArg List.length hsplit
        rw [List.length_append, List.length_append, List.length_replicate, hip.1] at h
        exact h.symm
      have htext : (Go.join ((ip.take i).map fun x => .ofList (Go.hexDigits x)) ":" ++ "::" ++
          Go.join ((ip.drop (i + n)).map fun x => .ofList (Go.hexDigits x)) ":").toList =
          groupsText (ip.take i) ++ ':' :: ':' :: groupsText (ip.drop (i + n)) := by
        rw [String.toList_append, String.toList_append, toList_groups, toList_groups,
          List.append_assoc]
        rfl
      show Go.parseIP (Go.join ((ip.take i).map fun x => .ofList (Go.hexDigits x)) ":" ++ "::" ++
        Go.join ((ip.drop (i + n)).map fun x => .ofList (Go.hexDigits x)) ":") = _
      rw [parseIP_colon ?_ ?_, htext, parseIPv6_elided htake hdrop hn hlen, ← hsplit]
      · rw [htext]
        exact List.mem_append_right _ List.mem_cons_self
      · intro c hc
        rw [htext] at hc
        rcases List.mem_append.mp hc with hc | hc
        · exact mem_groupsText htake hc
        · rcases List.mem_cons.mp hc with rfl | hc
          · exact .inl rfl
          · rcases List.mem_cons.mp hc with rfl | hc
            · exact .inl rfl
            · exact mem_groupsText hdrop hc

/-! ## Which texts are addresses -/

/-- The runes of addresses. -/
def addressRune (c : Char) : Bool := (Go.hexValue c).isSome || c == '.' || c == ':'

/-- They are visible runes of ASCII. -/
theorem addressRune_visible {c : Char} (h : addressRune c = true) :
    33 ≤ c.toNat ∧ c.toNat ≤ 126 := by
  simp only [addressRune, Go.hexValue, Bool.or_eq_true, beq_iff_eq, Char.le_def,
    UInt32.le_iff_toNat_le] at h
  rcases h with (h | rfl) | rfl
  · have hval : c.val.toNat = c.toNat := rfl
    have h0 : ('0' : Char).val.toNat = 48 := rfl
    have h9 : ('9' : Char).val.toNat = 57 := rfl
    have ha : ('a' : Char).val.toNat = 97 := rfl
    have hf : ('f' : Char).val.toNat = 102 := rfl
    have hA : ('A' : Char).val.toNat = 65 := rfl
    have hF : ('F' : Char).val.toNat = 70 := rfl
    rw [hval, h0, h9, ha, hf, hA, hF] at h
    split at h
    · omega
    split at h
    · omega
    split at h
    · omega
    · cases h
  · decide
  · decide

theorem addressRune_of_isDigit {c : Char} (h : c.isDigit = true) : addressRune c = true := by
  have hle : '0' ≤ c ∧ c ≤ '9' := by
    simpa [Char.isDigit, Char.le_def] using h
  unfold addressRune Go.hexValue
  rw [if_pos hle]
  rfl

/-- An octet is made of digits. -/
theorem isDigit_of_parseOctet {l : List Char} {n : Nat} (h : Go.parseOctet l = some n) {c : Char}
    (hc : c ∈ l) : c.isDigit = true := by
  unfold Go.parseOctet at h
  split at h
  · cases h
  · cases h
  · split at h
    · next hall => exact List.all_eq_true.mp hall c hc
    · cases h

/-- A dotted address is made of digits and dots. -/
theorem dot_or_digit_of_parseIPv4Fields {s : List Char} {v : List Nat}
    (h : Go.parseIPv4Fields s = some v) {c : Char} (hc : c ∈ s) : c = '.' ∨ c.isDigit = true := by
  have hjoin : List.intercalate ['.'] (s.splitOn '.') = s := List.intercalate_splitOn '.'
  rw [← hjoin] at hc
  rcases mem_intercalate hc with rfl | ⟨l, hl, hcl⟩
  · exact .inl rfl
  · unfold Go.parseIPv4Fields at h
    split at h
    · next heq =>
      have hmem := List.mem_map_of_mem (f := Go.parseOctet) hl
      rw [heq] at hmem
      obtain ⟨n, hn⟩ : ∃ n, Go.parseOctet l = some n := by
        simp only [List.mem_cons, List.not_mem_nil, or_false] at hmem
        rcases hmem with h | h | h | h <;> exact ⟨_, h⟩
      exact .inr (isDigit_of_parseOctet hn hcl)
    · cases h

theorem rune_of_parseIPv4Fields {s : List Char} {v : List Nat}
    (h : Go.parseIPv4Fields s = some v) {c : Char} (hc : c ∈ s) : addressRune c = true := by
  rcases dot_or_digit_of_parseIPv4Fields h hc with rfl | hdigit
  · rfl
  · exact addressRune_of_isDigit hdigit

/-- Before the rest of a group there are only hexadecimal digits. -/
theorem rune_of_hexGroup {s rest : List Char} {ds : List Nat} (h : Go.hexGroup s = (ds, rest))
    (hrest : ∀ c ∈ rest, addressRune c = true) {c : Char} (hc : c ∈ s) : addressRune c = true := by
  obtain ⟨_, rfl⟩ := Prod.mk.inj h
  have hsplit := List.prefix_iff_eq_append.mp
    (List.takeWhile_prefix (l := s) fun c => (Go.hexValue c).isSome)
  rw [← hsplit] at hc
  rcases List.mem_append.mp hc with hc | hc
  · have := List.mem_takeWhile_imp hc
    unfold addressRune
    rw [this]
    rfl
  · exact hrest c hc

/-- What the loop accepts is made of address runes. -/
theorem rune_of_loop {fuel : Nat} {s : List Char} {acc : List Nat} {e : Option Nat}
    {r : List Nat × Option Nat} (h : Go.parseIPv6Loop fuel s acc e = some r) {c : Char}
    (hc : c ∈ s) : addressRune c = true := by
  induction fuel generalizing s acc e c with
  | zero =>
    unfold Go.parseIPv6Loop at h
    split at h
    · next hs =>
      rw [List.isEmpty_iff.mp hs] at hc
      cases hc
    · cases h
  | succ fuel ih =>
    unfold Go.parseIPv6Loop at h
    split at h
    · cases h
    · next ds rest _ hgroup =>
      dsimp only at h
      split at h
      · cases h
      refine rune_of_hexGroup hgroup ?_ hc
      intro d hd
      split at h
      · cases hd
      · split at h
        · cases h
        · obtain ⟨v, hv, _⟩ := Option.map_eq_some_iff.mp h
          obtain ⟨_, hrest⟩ := Prod.mk.inj hgroup
          rw [← hrest] at hd
          exact rune_of_parseIPv4Fields hv (List.mem_of_mem_drop hd)
      · cases h
      · next tail =>
        rcases List.mem_cons.mp hd with rfl | hd
        · rfl
        rcases List.mem_cons.mp hd with rfl | hd
        · rfl
        split at h
        · cases h
        split at h
        · next hempty =>
          rw [List.isEmpty_iff.mp hempty] at hd
          cases hd
        · exact ih h hd
      · rcases List.mem_cons.mp hd with rfl | hd
        · rfl
        · exact ih h hd
      · cases h

/-- **An address has no other runes.** -/
theorem rune_of_parseIP {s : String} {ip : IP} (h : Go.parseIP s = some ip) {c : Char}
    (hc : c ∈ s.toList) : addressRune c = true := by
  unfold Go.parseIP at h
  split at h
  · obtain ⟨v, hv, _⟩ := Option.map_eq_some_iff.mp h
    exact rune_of_parseIPv4Fields hv hc
  · unfold Go.parseIPv6 at h
    split at h
    · next heq =>
      rw [heq] at hc
      rcases List.mem_cons.mp hc with rfl | hc
      · rfl
      · rw [List.mem_singleton.mp hc]
        rfl
    · next heq =>
      obtain ⟨r, hr, _⟩ := Option.bind_eq_some_iff.mp h
      rw [heq] at hc
      rcases List.mem_cons.mp hc with rfl | hc
      · rfl
      rcases List.mem_cons.mp hc with rfl | hc
      · rfl
      · exact rune_of_loop hr hc
    · obtain ⟨r, hr, _⟩ := Option.bind_eq_some_iff.mp h
      exact rune_of_loop hr hc
  · cases h

/-- The text of an address has no other runes either. -/
theorem rune_of_ipText {ip : IP} (hip : IsAddress ip) {c : Char} (hc : c ∈ (ipText ip).toList) :
    addressRune c = true := rune_of_parseIP (parseIP_ipText hip) hc

/-! ## What is read is an address -/

/-- A hexadecimal digit has four bits. -/
theorem hexValue_lt {c : Char} {n : Nat} (h : Go.hexValue c = some n) : n < 16 := by
  have hval : ∀ d : Char, d.val.toNat = d.toNat := fun _ => rfl
  simp only [Go.hexValue, Char.le_def, UInt32.le_iff_toNat_le, hval] at h
  have h0 : '0'.toNat = 48 := rfl
  have h9 : '9'.toNat = 57 := rfl
  have ha : 'a'.toNat = 97 := rfl
  have hf : 'f'.toNat = 102 := rfl
  have hA : 'A'.toNat = 65 := rfl
  have hF : 'F'.toNat = 70 := rfl
  rw [h0, h9, ha, hf, hA, hF] at h
  split at h
  · have := Option.some.inj h
    omega
  split at h
  · have := Option.some.inj h
    omega
  split at h
  · have := Option.some.inj h
    omega
  · cases h

/-- Up to four digits have sixteen bits. -/
theorem hexFold_lt (ds : List Nat) (h : ∀ d ∈ ds, d < 16) : hexFold ds < 16 ^ ds.length := by
  induction ds using List.reverseRecOn with
  | nil => decide
  | append_singleton ds d ih =>
    have hlt := ih fun x hx => h x (List.mem_append_left _ hx)
    have hd := h d (List.mem_append_right _ (List.mem_singleton_self d))
    rw [hexFold_append, List.length_append, List.length_singleton, Nat.pow_succ]
    omega

/-- The digits of a group are digits. -/
theorem hexGroup_lt {s rest : List Char} {ds : List Nat} (h : Go.hexGroup s = (ds, rest)) :
    ∀ d ∈ ds, d < 16 := by
  unfold Go.hexGroup at h
  obtain ⟨rfl, _⟩ := Prod.mk.inj h
  intro d hd
  obtain ⟨c, _, hc⟩ := List.mem_filterMap.mp hd
  exact hexValue_lt hc

/-- An octet has eight bits. -/
theorem parseOctet_le {s : List Char} {n : Nat} (h : Go.parseOctet s = some n) : n ≤ 255 := by
  unfold Go.parseOctet at h
  split at h
  · cases h
  · cases h
  · split at h
    · dsimp only at h
      split at h
      · next hle => exact Option.some.inj h ▸ hle.2
      · cases h
    · cases h

/-- Four octets are two groups. -/
theorem parseIPv4Fields_lt {s : List Char} {v : List Nat} (h : Go.parseIPv4Fields s = some v) :
    v.length = 2 ∧ ∀ g ∈ v, g < 65536 := by
  unfold Go.parseIPv4Fields at h
  split at h
  · next a b c d hmap =>
    cases h
    have hle {x : Nat} (hx : some x ∈ (s.splitOn '.').map Go.parseOctet) : x ≤ 255 := by
      obtain ⟨l, _, hl⟩ := List.mem_map.mp hx
      exact parseOctet_le hl
    rw [hmap] at hle
    have ha : a ≤ 255 := hle (by simp)
    have hb : b ≤ 255 := hle (by simp)
    have hc : c ≤ 255 := hle (by simp)
    have hd : d ≤ 255 := hle (by simp)
    refine ⟨rfl, fun g hg => ?_⟩
    rcases List.mem_cons.mp hg with rfl | hg
    · omega
    · rw [List.mem_singleton.mp hg]
      omega
  · cases h

/-- The loop reads groups. -/
theorem parseIPv6Loop_lt {fuel : Nat} {s : List Char} {acc : List Nat} {e : Option Nat}
    {r : List Nat × Option Nat} (hacc : ∀ g ∈ acc, g < 65536)
    (h : Go.parseIPv6Loop fuel s acc e = some r) : ∀ g ∈ r.1, g < 65536 := by
  induction fuel generalizing s acc e with
  | zero =>
    unfold Go.parseIPv6Loop at h
    split at h
    · cases h
      exact hacc
    · cases h
  | succ fuel ih =>
    unfold Go.parseIPv6Loop at h
    split at h
    · cases h
    next ds rest _ hgroup =>
    dsimp only at h
    by_cases hlen : 4 < ds.length
    · rw [if_pos hlen] at h
      cases h
    rw [if_neg hlen] at h
    have hfold : hexFold ds < 65536 := by
      refine Nat.lt_of_lt_of_le (hexFold_lt ds (hexGroup_lt hgroup)) ?_
      exact Nat.pow_le_pow_right (by decide) (Nat.not_lt.mp hlen)
    have hnext : ∀ g ∈ acc ++ [hexFold ds], g < 65536 := by
      intro g hg
      rcases List.mem_append.mp hg with hg | hg
      · exact hacc g hg
      · rw [List.mem_singleton.mp hg]
        exact hfold
    split at h
    · cases h
      exact hnext
    · split at h
      · cases h
      · obtain ⟨v, hv, rfl⟩ := Option.map_eq_some_iff.mp h
        intro g hg
        rcases List.mem_append.mp hg with hg | hg
        · exact hacc g hg
        · exact (parseIPv4Fields_lt hv).2 g hg
    · cases h
    · split at h
      · cases h
      · split at h
        · cases h
          exact hnext
        · exact ih hnext h
    · exact ih hnext h
    · cases h

/-- A filled ellipsis makes eight groups. -/
theorem expandEllipsis_isAddress {r : List Nat × Option Nat} {ip : IP} (hr : ∀ g ∈ r.1, g < 65536)
    (h : Go.expandEllipsis r = some ip) : IsAddress ip := by
  unfold Go.expandEllipsis at h
  split at h
  · split at h
    · next hlen =>
      cases h
      exact ⟨hlen, hr⟩
    · cases h
  · split at h
    · cases h
      constructor
      · simp only [List.length_append, List.length_take, List.length_replicate, List.length_drop]
        omega
      · intro g hg
        rcases List.mem_append.mp hg with hg | hg
        · rcases List.mem_append.mp hg with hg | hg
          · exact hr g (List.mem_of_mem_take hg)
          · rw [(List.mem_replicate.mp hg).2]
            decide
        · exact hr g (List.mem_of_mem_drop hg)
    · cases h

/-- **What is read as an address is one.** -/
theorem isAddress_of_parseIP {s : String} {ip : IP} (h : Go.parseIP s = some ip) :
    IsAddress ip := by
  unfold Go.parseIP at h
  split at h
  · obtain ⟨v, hv, rfl⟩ := Option.map_eq_some_iff.mp h
    obtain ⟨hlen, hlt⟩ := parseIPv4Fields_lt hv
    refine ⟨by rw [List.length_append, hlen]; rfl, fun g hg => ?_⟩
    rcases List.mem_append.mp hg with hg | hg
    · exact (by decide : ∀ g ∈ [0, 0, 0, 0, 0, 65535], g < 65536) g hg
    · exact hlt g hg
  · unfold Go.parseIPv6 at h
    split at h
    · cases h
      exact ⟨rfl, by decide⟩
    · obtain ⟨r, hr, hip⟩ := Option.bind_eq_some_iff.mp h
      exact expandEllipsis_isAddress (parseIPv6Loop_lt (List.forall_mem_nil _) hr) hip
    · obtain ⟨r, hr, hip⟩ := Option.bind_eq_some_iff.mp h
      exact expandEllipsis_isAddress (parseIPv6Loop_lt (List.forall_mem_nil _) hr) hip
  · cases h

/-! ## Colons -/

/-- The loop reads no more groups than the colons separate, two of them from a dotted tail, and an
ellipsis is two colons. -/
theorem colons_of_loop {fuel : Nat} {s : List Char} {acc : List Nat} {e : Option Nat}
    {r : List Nat × Option Nat} (h : Go.parseIPv6Loop fuel s acc e = some r) :
    r.1.length ≤ acc.length + s.count ':' + 2 ∧ (r.2 = none ∨ e ≠ none ∨ 2 ≤ s.count ':') := by
  induction fuel generalizing s acc e with
  | zero =>
    unfold Go.parseIPv6Loop at h
    split at h
    · cases h
      exact ⟨Nat.le_trans (Nat.le_add_right _ _) (Nat.le_add_right _ _), (em _).imp_right .inl⟩
    · cases h
  | succ fuel ih =>
    unfold Go.parseIPv6Loop at h
    split at h
    · cases h
    next ds rest _ hgroup =>
    have hrest : rest.count ':' ≤ s.count ':' := by
      obtain ⟨_, rfl⟩ := Prod.mk.inj hgroup
      exact (List.drop_sublist _ _).count_le _
    dsimp only at h
    by_cases hlen : 4 < ds.length
    · rw [if_pos hlen] at h
      cases h
    rw [if_neg hlen] at h
    split at h
    · cases h
      exact ⟨by simp; omega, (em _).imp_right .inl⟩
    · split at h
      · cases h
      · obtain ⟨v, hv, rfl⟩ := Option.map_eq_some_iff.mp h
        refine ⟨?_, (em _).imp_right .inl⟩
        rw [List.length_append, (parseIPv4Fields_lt hv).1]
        omega
    · cases h
    · next tail =>
      have htwo : 2 + tail.count ':' ≤ s.count ':' := by
        simp only [List.count_cons_self] at hrest
        omega
      split at h
      · cases h
      · split at h
        · cases h
          exact ⟨by simp; omega, .inr (.inr (by omega))⟩
        · have hlength := (ih h).1
          rw [List.length_append, List.length_singleton] at hlength
          exact ⟨by omega, .inr (.inr (by omega))⟩
    · next tail _ _ =>
      have hone : 1 + tail.count ':' ≤ s.count ':' := by
        rw [List.count_cons_self] at hrest
        omega
      obtain ⟨hlength, hellipsis⟩ := ih h
      rw [List.length_append, List.length_singleton] at hlength
      exact ⟨by omega, hellipsis.imp_right (Or.imp_right (by omega))⟩
    · cases h

/-- **An address with a colon has two.** -/
theorem two_colons_of_parseIP {s : String} {ip : IP} (h : Go.parseIP s = some ip)
    (hc : ':' ∈ s.toList) : 2 ≤ s.toList.count ':' := by
  unfold Go.parseIP at h
  split at h
  · obtain ⟨v, hv, _⟩ := Option.map_eq_some_iff.mp h
    exact absurd (dot_or_digit_of_parseIPv4Fields hv hc) (by decide)
  · unfold Go.parseIPv6 at h
    split at h
    · next heq =>
      rw [heq]
      decide
    · next heq =>
      rw [heq]
      simp only [List.count_cons_self]
      omega
    · obtain ⟨r, hr, hip⟩ := Option.bind_eq_some_iff.mp h
      obtain ⟨hlength, hnone | hnone | htwo⟩ := colons_of_loop hr
      · -- Without an ellipsis there are eight groups.
        unfold Go.expandEllipsis at hip
        split at hip
        · next heq =>
          split at hip
          · next hlen =>
            rw [hlen, List.length_nil] at hlength
            omega
          · cases hip
        · next heq => cases hnone
      · exact absurd rfl hnone
      · exact htwo
  · cases h

end Goca.Pki
