import Goca.Laws.Addresses
import Goca.Laws.AuthorityTable
import Goca.Laws.Finalize
import Goca.Laws.Returned
import Goca.Laws.Samples

/-!
# Serial numbers are read back

A serial number travels as text: the tables hold it, lists of revocations are made from it, and
operators paste it from other tools with colons and in either letter case. `SerialHex` writes the
digits of a number and, where their number is odd, one zero before them; the leading zero is what the
reader must not stumble over, so the round trip is stated of the digits as a list with a value.

`GetCertificateBySerial` looks for a text, not for a number. It finds the row of a serial in every
spelling because both sides end up in one letter case without colons, and it finds one row only where
no second row has the serial. That the column holds the text of a number is an invariant of every
run: the one statement that writes it gets it from `SerialHex`.
-/

set_option autoImplicit false

namespace Goca.Pki

/-! ## The digits of a serial -/

/-- An upper-case hexadecimal digit. -/
def IsUpperDigit (c : Char) : Prop := ('0' ≤ c ∧ c ≤ '9') ∨ ('A' ≤ c ∧ c ≤ 'F')

instance (c : Char) : Decidable (IsUpperDigit c) := by
  unfold IsUpperDigit; infer_instance

/-- The upper-case digit of a value. -/
def upperDigit (d : Nat) : Char := d.digitChar.toUpper

/-- An upper-case digit is an ASCII rune that is no blank, and its lower-case form is the digit. -/
theorem upperDigit_facts : ∀ d < 16, Go.isASCII (upperDigit d) = true ∧
    Go.isSpace (upperDigit d) = false ∧ (upperDigit d).toLower = d.digitChar ∧
    IsUpperDigit (upperDigit d) := by decide +kernel

/-- A zero in front of the digits does not change their value. -/
theorem hexFold_zero (ds : List Nat) : hexFold (0 :: ds) = hexFold ds := rfl

/-- **The digits of a serial**: an even number of them, at least two, with the value of the serial. -/
theorem serialHex_digits (n : Nat) : ∃ ds : List Nat,
    (serialHex n).toList = ds.map upperDigit ∧ (∀ d ∈ ds, d < 16) ∧ ds ≠ [] ∧ hexFold ds = n ∧
      ds.length % 2 = 0 := by
  have hbound : n < 16 ^ (n + 1) :=
    (Nat.lt_pow_self (by decide)).trans (Nat.pow_lt_pow_succ (by decide))
  obtain ⟨ds, hds, hlt, hne, hvalue, _⟩ := hexDigits_value n n hbound
  have hupper : (Go.hexDigits n).map Char.toUpper = ds.map upperDigit := by
    rw [hds, List.map_map]
    rfl
  unfold serialHex
  simp only [hupper, List.length_map, String.toList_ofList]
  by_cases hodd : ds.length % 2 = 1
  · refine ⟨0 :: ds, ?_, ?_, by simp, ?_, ?_⟩
    · rw [if_pos hodd]
      rfl
    · simpa using hlt
    · rw [hexFold_zero, hvalue]
    · simp
      omega
  · exact ⟨ds, by simp [hodd], hlt, hne, hvalue, by omega⟩

theorem foldlM_digits {ds : List Nat} (hlt : ∀ d ∈ ds, d < 16) (m : Nat) :
    (ds.map Nat.digitChar).foldlM (fun n c => (Go.hexValue c).map (n * 16 + ·)) m =
      some (ds.foldl (fun n d => n * 16 + d) m) := by
  induction ds generalizing m with
  | nil => rfl
  | cons d ds ih =>
    simp only [List.mem_cons, forall_eq_or_imp] at hlt
    simp only [List.map_cons, List.foldlM_cons, List.foldl_cons, Go.hexValue_digitChar d hlt.1,
      Option.map_some, Option.bind_eq_bind, Option.bind_some]
    exact ih hlt.2 _

/-- The digits of a number are read as its value. -/
theorem hexNumber_digits {ds : List Nat} (hlt : ∀ d ∈ ds, d < 16) (hne : ds ≠ []) :
    hexNumber (ds.map Nat.digitChar) = some (hexFold ds) := by
  unfold hexNumber
  rw [if_neg (by simpa using hne)]
  exact foldlM_digits hlt 0

/-! ## The round trip -/

/-- A digit is none of the runes that `SerialFromHex` looks for. -/
theorem digitChar_not_mark : ∀ d < 16, d.digitChar ∉ [':', '-', '+', 'x'] := by decide

theorem not_mem_digits {ds : List Nat} (hlt : ∀ d ∈ ds, d < 16) {c : Char}
    (hc : c ∈ [':', '-', '+', 'x']) : c ∉ ds.map Nat.digitChar := by
  intro hmem
  obtain ⟨d, hd, rfl⟩ := List.mem_map.mp hmem
  exact digitChar_not_mark d (hlt d hd) hc

/-- A text without a sign is read as its digits. -/
theorem setString16_unsigned {s : List Char} (hminus : '-' ∉ s) (hplus : '+' ∉ s) :
    setString16 s = (hexNumber s).map fun n => (n : Int) := by
  unfold setString16
  split
  · exact absurd List.mem_cons_self hminus
  · exact absurd List.mem_cons_self hplus
  · rfl

section

variable [Go.Runtime]

/-- Lowering the text of a serial gives its digits. -/
theorem toLower_serialHex {s : String} {ds : List Nat} (hlt : ∀ d ∈ ds, d < 16)
    (hs : s.toList = ds.map upperDigit) : Go.toLower s = .ofList (ds.map Nat.digitChar) := by
  unfold Go.toLower
  rw [hs, List.map_map]
  congr 1
  apply List.map_congr_left
  intro d hd
  obtain ⟨hascii, _, hlower, _⟩ := upperDigit_facts d (hlt d hd)
  simp [Go.lowerRune, hascii, hlower]

/-- **A serial is read back** as the number it was written from. -/
theorem serialFromHex_serialHex (n : Nat) : serialFromHex (serialHex n) = some (n : Int) := by
  obtain ⟨ds, hds, hlt, hne, hvalue, _⟩ := serialHex_digits n
  have htrim : Go.trimSpace (serialHex n) = serialHex n := by
    apply Go.trimSpace_eq_self
    intro c hc
    rw [hds] at hc
    obtain ⟨d, hd, rfl⟩ := List.mem_map.mp hc
    exact (upperDigit_facts d (hlt d hd)).2.1
  have hnot {c : Char} (hc : c ∈ [':', '-', '+', 'x']) :
      c ∉ (String.ofList (ds.map Nat.digitChar)).toList := by
    rw [String.toList_ofList]
    exact not_mem_digits hlt hc
  unfold serialFromHex
  simp only [htrim, toLower_serialHex hlt hds]
  rw [Go.cutPrefix_of_not_mem (hnot (c := 'x') (by simp)) (by decide), Option.getD_none,
    Go.replaceRune_of_not_mem (hnot (by simp)), String.toList_ofList,
    setString16_unsigned (not_mem_digits hlt (by simp)) (not_mem_digits hlt (by simp)),
    hexNumber_digits hlt hne, hvalue]
  rfl

end

/-- An even number of upper-case hexadecimal digits. -/
structure UpperHex (s : String) : Prop where
  even : s.length % 2 = 0
  digits : ∀ c ∈ s.toList, IsUpperDigit c

theorem upperHex_serialHex (n : Nat) : UpperHex (serialHex n) := by
  obtain ⟨ds, hds, hlt, _, _, heven⟩ := serialHex_digits n
  refine ⟨?_, ?_⟩
  · rw [← String.length_toList, hds, List.length_map]
    exact heven
  · intro c hc
    rw [hds] at hc
    obtain ⟨d, hd, rfl⟩ := List.mem_map.mp hc
    exact (upperDigit_facts d (hlt d hd)).2.2.2

end Goca.Pki

namespace Goca

open Goca.Store
open Goca.Pki (IsUpperDigit UpperHex upperHex_serialHex)
open Interleave (Act Prog Pool Trace)
open Interleave.Act
open Sql (Table)

/-! ## Spellings -/

/-- A text of hexadecimal digits, of either letter case. -/
def IsHex (s : String) : Prop := ∀ c ∈ s.toList, (Go.hexValue c).isSome = true

instance (s : String) : Decidable (IsHex s) := List.decidableBAll _ s.toList

/-- **A spelling of a serial**: its digits in either letter case, with colons anywhere between them,
and blanks around the whole. -/
def Spells (s serial : String) : Prop :=
  ∃ pre body post : List Char, s.toList = pre ++ body ++ post ∧
    (∀ c ∈ pre ++ post, Go.isSpace c = true) ∧
    (body.filter (· ≠ ':')).map Char.toUpper = serial.toList.map Char.toUpper

/-- Raising a rune of ASCII gives one, and no other rune does. -/
theorem isASCII_toUpper (c : Char) : Go.isASCII c.toUpper = true ↔ Go.isASCII c = true := by
  by_cases hc : Go.isASCII c = true
  · have := Go.ascii_induction (P := fun c => Go.isASCII c.toUpper = true) (by decide +kernel)
      (Go.isASCII_iff.mp hc)
    simp [hc, this]
  · have hsame : c.toUpper = c := by
      unfold Char.toUpper
      rw [dif_neg]
      rintro ⟨_, hz⟩
      apply hc
      rw [Go.isASCII_iff]
      exact Nat.lt_of_le_of_lt (UInt32.le_iff_toNat_le.mp hz) (by decide)
    rw [hsame]

/-- A hexadecimal digit is a rune of ASCII. -/
theorem isASCII_of_hexValue {c : Char} (h : (Go.hexValue c).isSome = true) :
    Go.isASCII c = true := by
  rw [Go.isASCII_iff]
  unfold Go.hexValue at h
  split at h
  · next hc => exact Nat.lt_of_le_of_lt hc.2 (by decide)
  · split at h
    · next hc => exact Nat.lt_of_le_of_lt hc.2 (by decide)
    · split at h
      · next hc => exact Nat.lt_of_le_of_lt hc.2 (by decide)
      · cases h

/-- A hexadecimal digit of either letter case is no blank. -/
theorem isSpace_of_hexValue {c d : Char} (hd : (Go.hexValue d).isSome = true)
    (hcd : c.toUpper = d.toUpper) : Go.isASCII c = true ∧ Go.isSpace c = false := by
  have hdigit := isASCII_of_hexValue hd
  have hascii : Go.isASCII c = true := by
    rw [← isASCII_toUpper, hcd, isASCII_toUpper]
    exact hdigit
  have hupper : IsUpperDigit d.toUpper :=
    Go.ascii_induction (P := fun d => (Go.hexValue d).isSome = true → IsUpperDigit d.toUpper)
      (by decide +kernel) (Go.isASCII_iff.mp hdigit) hd
  rw [← hcd] at hupper
  exact ⟨hascii, Go.ascii_induction
    (P := fun c => IsUpperDigit c.toUpper → Go.isSpace c = false)
    (by decide +kernel) (Go.isASCII_iff.mp hascii) hupper⟩

section

variable [Go.Runtime]

/-- **What is looked up** for a spelling is the serial in upper case. -/
theorem lookup_of_spells {s serial : String} (hserial : IsHex serial) (hs : Spells s serial) :
    Go.toUpper (Go.replaceRune (Go.trimSpace s) ':' []) = sqlUpper serial := by
  obtain ⟨pre, body, post, hsplit, houter, hbody⟩ := hs
  have hdigit : ∀ c ∈ body.filter (· ≠ ':'), Go.isASCII c = true ∧ Go.isSpace c = false := by
    intro c hc
    have hmem : c.toUpper ∈ serial.toList.map Char.toUpper := by
      rw [← hbody]
      exact List.mem_map_of_mem hc
    obtain ⟨d, hd, hdc⟩ := List.mem_map.mp hmem
    exact isSpace_of_hexValue (hserial d hd) hdc.symm
  have hvisible : ∀ c ∈ body, Go.isSpace c = false := by
    intro c hc
    by_cases hcolon : c = ':'
    · rw [hcolon]
      rfl
    · exact (hdigit c (List.mem_filter.mpr ⟨hc, by simpa using hcolon⟩)).2
  have htrim : (Go.trimSpace s).toList = body := by
    unfold Go.trimSpace
    rw [String.toList_ofList, hsplit]
    exact Go.trimRunes_surrounded houter hvisible
  unfold Go.toUpper sqlUpper
  rw [Go.toList_replaceRune_nil, htrim, ← hbody]
  congr 1
  apply List.map_congr_left
  intro c hc
  simp [Go.upperRune, (hdigit c hc).1]

/-! ## The lookup -/

/-- No two certificates have one serial, whatever the letter case of its text. -/
def DistinctSerials (t : CaTables) : Prop :=
  (t.certificates.rows.map fun c => sqlUpper c.serialHex).Nodup

instance (t : CaTables) : Decidable (DistinctSerials t) := by
  unfold DistinctSerials; infer_instance

omit [Go.Runtime] in
/-- Of distinct values one row is selected. -/
theorem filter_of_nodup {R : Type} {f : R → String} {rows : List R} (h : (rows.map f).Nodup)
    {r : R} (hr : r ∈ rows) : rows.filter (fun x => f x == f r) = [r] := by
  induction rows with
  | nil => cases hr
  | cons a rows ih =>
    obtain ⟨hnew, hrest⟩ := List.nodup_cons.mp h
    rcases List.mem_cons.mp hr with rfl | hr
    · rw [List.filter_cons_of_pos (by simp), List.filter_eq_nil_iff.mpr]
      intro x hx heq
      exact hnew (List.mem_map.mpr ⟨x, hx, beq_iff_eq.mp heq⟩)
    · rw [List.filter_cons_of_neg, ih hrest hr]
      intro heq
      exact hnew (List.mem_map.mpr ⟨r, hr, (beq_iff_eq.mp heq).symm⟩)

/-- **The lookup finds a row**: it answers with this row wherever the database answers, it answers
with no other, and it changes nothing. -/
structure Finds (w : World) (text : String) (r : Certificate) : Prop where
  answers : ∀ e : Env, 0 < e.now → e.fault = .none →
    (getCertificateBySerial text).run.evalWith exec e w = some (.ok r, w)
  only : ∀ x w', (getCertificateBySerial text).Returns exec w x w' →
    w' = w ∧ (x = .ok r ∨ ∃ why, x = .error (.driver why))

/-- What is answered where the lookup selects one row. -/
theorem finds_of_selected {w : World} {r : Certificate} {text serial : String}
    (hselected : (w.ca.certificates.rows.filter fun c => sqlUpper c.serialHex == serial) = [r])
    (hlookup : Go.toUpper (Go.replaceRune (Go.trimSpace text) ':' []) = serial) :
    Finds w text r := by
  have hexec (e : Env) :
      w.ca.exec e (.selectCertificateBySerial serial) = (.ok (some r), w.ca) := by
    have hpick : pickRow e.pick [r] = some r := by simp [pickRow, Nat.mod_one]
    rw [← hpick, ← hselected]
    rfl
  have hprogram : getCertificateBySerial text =
      (ca (.selectCertificateBySerial serial)).mapResult row := by
    unfold getCertificateBySerial
    rw [hlookup]
  constructor
  · intro e hnow hfault
    have hstep : exec e w (.ca (.selectCertificateBySerial serial)) = some (.ok (some r), w) := by
      unfold exec
      simp only [if_pos hnow, hfault, hexec]
      rfl
    rw [hprogram]
    show (exec e w (.ca (.selectCertificateBySerial serial))).bind _ = _
    rw [hstep]
    rfl
  · intro x w' h
    rw [hprogram] at h
    obtain ⟨a, ha, rfl⟩ := returns_mapResult.mp h
    refine ⟨(ca_reads (fun e => congrArg Prod.snd (hexec e)) ha).symm, ?_⟩
    obtain ⟨e, y, v, hy, heq, _⟩ := ha
    obtain ⟨_, hans, _⟩ := exec_ca hy
    obtain rfl : y = a := heq
    rw [hans, hexec]
    cases e.fault with
    | none => exact .inl rfl
    | lost why => exact .inr ⟨why, rfl⟩
    | late why => exact .inr ⟨why, rfl⟩

/-- **Every spelling of a serial finds its certificate**, where serials are distinct. -/
theorem finds_of_spells {w : World} (hdistinct : DistinctSerials w.ca) {r : Certificate}
    (hr : r ∈ w.ca.certificates.rows) (hserial : IsHex r.serialHex) {text : String}
    (htext : Spells text r.serialHex) : Finds w text r :=
  finds_of_selected (filter_of_nodup hdistinct hr) (lookup_of_spells hserial htext)

end

/-! ## What the column holds -/

/-- A statement that writes a serial writes the text of a number. -/
def WritesSerial : Stmt → Prop
  | .ca (.insertCertificate c) => ∃ n, c.serialHex = Pki.serialHex n
  | _ => True

/-- A statement that stores no certificate writes no serial. -/
theorem writesSerial_of_within {ks : List Effect} (h : .insertCertificate ∉ ks) {s : Stmt}
    (hs : Within ks s) : WritesSerial s := by
  unfold WritesSerial
  split
  · exact absurd hs h
  · trivial

section Run

variable [Go.Runtime]

theorem RecordWarrant.writesSerial {svc : Ca.Service} {i : Ca.IssueInput} {q : Trace sig}
    {c : Certificate} (h : RecordWarrant svc i q c) : WritesSerial (.ca (.insertCertificate c)) := by
  obtain ⟨row, p, q₁, st, cert, _, _, _, _, _, hserial, _⟩ := h
  exact ⟨cert.serialNumber, hserial⟩

/-- A signature writes no serial. -/
theorem SignWarrant.writesSerial {p : Pki.SignParams} {q : Trace sig} {s : Stmt}
    (h : SignWarrant p q s) : WritesSerial s := by
  obtain ⟨serial, t, _, _, _, rfl⟩ := h.signature
  trivial

/-- **What a request writes as a serial** is the text of a number. -/
theorem serve_writesSerial (c : Call) :
    c.serve.Traced (fun _ s => WritesSerial s) (fun _ _ => True) [] := by
  have hallow {ks : List Effect} (h : .insertCertificate ∉ ks) (q : Trace sig) :
      Allows ks (fun _ s => WritesSerial s) q := fun _ _ _ hs => writesSerial_of_within h hs
  obtain ⟨acme, request⟩ := c
  cases request with
  | issue i =>
    exact replying_traced (issue_traced acme.caSvc i (hallow List.not_mem_nil _).reads
      (fun _ _ _ _ _ _ h => h.writesSerial) fun _ _ _ h => h.writesSerial)
  | renew id i =>
    exact replying_traced (renew_traced acme.caSvc id i (hallow (by simp) _)
      (fun _ _ _ _ _ _ _ _ h => h.writesSerial) fun _ _ _ _ _ h => h.writesSerial)
  | renewExpiring withinDays i =>
    exact replying_traced (renewExpiring_traced acme.caSvc withinDays i (hallow (by simp) _)
      (fun _ _ _ _ _ _ _ h => h.writesSerial) fun _ _ _ _ h => h.writesSerial)
  | finalize orderID body =>
    exact replying_traced (finalize_traced acme orderID body (hallow (by simp) _)
      (fun _ _ _ _ _ _ => trivial)
      (fun _ _ _ _ _ _ _ _ _ _ _ _ _ _ _ h => h.writesSerial)
      (fun _ _ _ _ _ _ _ _ _ _ _ h => h.writesSerial)
      fun _ _ _ _ _ _ _ _ _ _ => trivial)
  | _ =>
    refine (serve_uses ⟨acme, _⟩).traced.mono (fun _ _ hs => ?_) fun _ _ _ => trivial
    exact writesSerial_of_within (by simp [Request.effects]) hs

/-- The same of a statement of a task: a deletion writes none. -/
def TaskSerial : adminSig.Stmt → Prop
  | .inl s => WritesSerial s
  | .inr _ => True

omit [Go.Runtime] in
theorem taskSerial_of_adminOnly {s : adminSig.Stmt} (hs : AdminOnly s) : TaskSerial s := by
  cases s with
  | inl s => exact writesSerial_of_within (by simp) hs
  | inr s => trivial

theorem task_writesSerial (t : Task) :
    t.serve.Traced (fun _ s => TaskSerial s) (fun _ _ => True) [] := by
  by_cases hcall : ∃ c, t = .call c
  · obtain ⟨c, rfl⟩ := hcall
    exact Prog.Traced.embed (q := []) (fun _ _ hs => hs) (fun _ _ _ => trivial)
      (serve_writesSerial c)
  · exact (deletion_uses hcall).traced_of (fun _ _ _ => taskSerial_of_adminOnly) fun _ _ => trivial

/-- **Written serials**: every certificate is stored under the text of a number. -/
def WrittenSerials (t : CaTables) : Prop :=
  ∀ r ∈ t.certificates.rows, ∃ n, r.serialHex = Pki.serialHex n

/-- A statement that writes the texts of numbers keeps the serials written. -/
theorem writtenSerials_exec {e : Env} {w w' : World} {s : Stmt} {x : s.Ans}
    (h : exec e w s = some (x, w')) (hs : WritesSerial s) (hw : WrittenSerials w.ca) :
    WrittenSerials w'.ca := by
  intro r hr
  have hstep := cert_step h r.id
  rw [show w'.ca.certificates.get? r.id = some r from Table.get?_of_mem hr] at hstep
  have hold : ∀ r₀, w.ca.certificates.get? r.id = some r₀ → ∃ n, r₀.serialHex = Pki.serialHex n :=
    fun r₀ h₀ => hw r₀ (Table.mem_of_get? h₀)
  generalize w.ca.certificates.get? r.id = before at hstep hold
  generalize hafter : some r = after at hstep
  cases hstep with
  | same => exact hold r hafter.symm
  | inserted n hc =>
    rw [Option.some.inj hafter]
    exact hs
  | revoked reason r₀ hc hr₀ =>
    obtain rfl := Option.some.inj hafter
    exact hold r₀ rfl
  | unrevoked r₀ hc =>
    obtain rfl := Option.some.inj hafter
    exact hold r₀ rfl
  | renewed p r₀ hc =>
    obtain rfl := Option.some.inj hafter
    exact hold r₀ rfl

/-- And so does a deletion. -/
theorem writtenSerials_delete {e : Env} {w w' : World} {s : DeleteStmt} {x : s.Ans}
    (h : adminExec e w (.inr s) = some (x, w')) (hw : WrittenSerials w.ca) :
    WrittenSerials w'.ca := by
  rcases deleteExec_cases h with rfl | ⟨_, _, _, rfl⟩
  · exact hw
  · exact fun r hr => hw r (Table.mem_delete.mp hr).1

/-- **In every state of every run** the column holds the texts of numbers. -/
theorem writtenSerials_upto (creds : Table EABCred) (ts : List Task) (moves : Pool.Schedule Env)
    {i : Nat} (hi : i ≤ moves.length) :
    WrittenSerials (tasksUpto (.empty creds) ts moves i).world.ca := by
  induction i with
  | zero => exact fun r hr => nomatch hr
  | succ i ih =>
    have hbefore := ih (by omega)
    rcases Pool.upto_asked adminExec (tasks (.empty creds) ts) hi with hs | ⟨s, x, hasked, _⟩
    · show WrittenSerials (Pool.upto adminExec _ moves (i + 1)).world.ca
      rw [hs]
      exact hbefore
    · obtain ⟨_, _, hwrites⟩ := task_may (m := fun _ _ s => TaskSerial s) task_writesSerial
        hasked.next
      cases s with
      | inl s => exact writtenSerials_exec (exec_of_admin hasked.exec) hwrites hbefore
      | inr s => exact writtenSerials_delete hasked.exec hbefore

omit [Go.Runtime] in
/-- The text of a number is hexadecimal, and already in upper case. -/
theorem serialHex_canonical (n : Nat) :
    IsHex (Pki.serialHex n) ∧ sqlUpper (Pki.serialHex n) = Pki.serialHex n := by
  have hdigits := (upperHex_serialHex n).digits
  have hall (c : Char) (hc : IsUpperDigit c) : (Go.hexValue c).isSome = true ∧ c.toUpper = c := by
    have hascii : c.toNat < 128 := by
      rcases hc with hc | hc
      · exact Nat.lt_of_le_of_lt hc.2 (by decide)
      · exact Nat.lt_of_le_of_lt hc.2 (by decide)
    exact Go.ascii_induction
      (P := fun c => IsUpperDigit c → (Go.hexValue c).isSome = true ∧ c.toUpper = c)
      (by decide +kernel) hascii hc
  refine ⟨fun c hc => (hall c (hdigits c hc)).1, ?_⟩
  unfold sqlUpper
  rw [List.map_congr_left (g := id) fun c hc => (hall c (hdigits c hc)).2, List.map_id,
    String.ofList_toList]

omit [Go.Runtime] in
/-- Written serials that differ are distinct. -/
theorem distinctSerials_of_written {t : CaTables} (hw : WrittenSerials t)
    (h : (t.certificates.rows.map (·.serialHex)).Nodup) : DistinctSerials t := by
  have hsame : (t.certificates.rows.map fun c => sqlUpper c.serialHex) =
      t.certificates.rows.map (·.serialHex) := by
    apply List.map_congr_left
    intro c hc
    obtain ⟨n, hn⟩ := hw c hc
    rw [hn]
    exact (serialHex_canonical n).2
  unfold DistinctSerials
  rw [hsame]
  exact h

/-- **Serial numbers round trip.** A number is read back from its text, which is an even number of
upper-case hexadecimal digits. In a store with distinct serials every spelling of a hexadecimal
serial finds its row and no other; and in every state of every run the serials are the texts of
numbers, so there it is enough that no two are equal. -/
theorem serials_roundTrip :
    (∀ n : Nat, Pki.serialFromHex (Pki.serialHex n) = some (n : Int) ∧
      UpperHex (Pki.serialHex n)) ∧
    (∀ w : World, DistinctSerials w.ca → ∀ r ∈ w.ca.certificates.rows, IsHex r.serialHex →
      ∀ text, Spells text r.serialHex → Finds w text r) ∧
    ∀ (creds : Table EABCred) (ts : List Task) (moves : Pool.Schedule Env), ∀ i ≤ moves.length,
      let w := (tasksUpto (.empty creds) ts moves i).world
      WrittenSerials w.ca ∧
        ((w.ca.certificates.rows.map (·.serialHex)).Nodup → ∀ r ∈ w.ca.certificates.rows,
          ∀ text, Spells text r.serialHex → Finds w text r) := by
  refine ⟨fun n => ⟨Pki.serialFromHex_serialHex n, upperHex_serialHex n⟩, ?_, ?_⟩
  · intro w hdistinct r hr hserial text htext
    exact finds_of_spells hdistinct hr hserial htext
  · intro creds ts moves i hi w
    have hwritten : WrittenSerials w.ca := writtenSerials_upto creds ts moves hi
    refine ⟨hwritten, ?_⟩
    intro hdistinct r hr text htext
    have hserial : IsHex r.serialHex := by
      obtain ⟨n, hn⟩ := hwritten r hr
      rw [hn]
      exact (serialHex_canonical n).1
    exact finds_of_spells (distinctSerials_of_written hwritten hdistinct) hr hserial htext

end Run

/-! ## A pasted serial -/

open Samples

section Pasted

attribute [local instance] Go.asciiRuntime

/-- A certificate with the serial `0A2F`, beside the one with the serial `02`. -/
def pasted : Certificate := { leaf with id := 2, serialHex := "0A2F" }

theorem isHex_pasted : IsHex pasted.serialHex := by
  simp [IsHex, pasted, Go.hexValue]

/-- It is spelled as other tools print it. -/
theorem spells_pasted : Spells " 0a:2F\n" pasted.serialHex := by
  refine ⟨[' '], ['0', 'a', ':', '2', 'F'], ['\n'], ?_, ?_, ?_⟩
  · rfl
  · simp [Go.isSpace]
  · simp only [pasted, String.reduceToList]
    rfl

/-- Printed like that the serial finds the certificate. -/
theorem pasted_found : Finds (installation root [leaf, pasted]) " 0a:2F\n" pasted := by
  have hdistinct : DistinctSerials (installation root [leaf, pasted]).ca := by decide +kernel
  have hrow : pasted ∈ (installation root [leaf, pasted]).ca.certificates.rows := by
    decide +kernel
  exact serials_roundTrip.2.1 _ hdistinct pasted hrow isHex_pasted _ spells_pasted

end Pasted

end Goca
