import Mathlib.Data.Finset.Card
import Goca.Laws.Evidence
import Goca.Laws.Samples

/-!
# The account cap of a credential

`register` reserves a slot in one conditional update, stores the account, reads it back, and gives
the slot back where any of that failed. A slot that is held, between the reservation and the account
it is for, is counted by `account_count` and by nothing else, so the accounts and the held slots
together stay within the count, and the count within the cap.

Giving the slot back is right only if the account was not stored. An insertion that took effect and
was answered with an error, and one whose row could not be read back, are given back as well, and
the count falls behind the accounts.
-/

set_option autoImplicit false

namespace Goca

open Goca.Store
open Goca.Acme (Body Problem)
open Interleave (Act Prog Pool Trace Event own)
open Interleave.Act

/-! ## What a registration has done -/

/-- Where a registration stands: before its reservation, with a slot reserved, after it tried to
store the account, after it gave the slot back. -/
inductive SlotState
  | idle
  | reserved (cred : Nat)
  | tried (cred : Nat)
  | over
  deriving DecidableEq

/-- How the answer of a statement moves a registration. -/
def SlotState.next (st : SlotState) (s : Stmt) (x : s.Ans) : SlotState :=
  match st, s, x with
  | .idle, .acme (.reserveEABAccountSlot cred), .ok (1 : Nat) => .reserved cred
  | .reserved cred, .acme (.insertAcmeAccount _), _ => .tried cred
  | .tried _, .acme (.releaseEABAccountSlot _), _ => .over
  | st, _, _ => st

/-- Where a trace has brought a registration. -/
def slotState (q : Trace sig) : SlotState := q.foldl (fun st x => st.next x.1 x.2) .idle

theorem slotState_snoc (q : Trace sig) (s : Stmt) (x : s.Ans) :
    slotState (q ++ [⟨s, x⟩]) = (slotState q).next s x := by
  rw [slotState, List.foldl_append]
  rfl

/-- A call reserves a slot once, stores one account under the credential it reserved a slot of, and
gives the slot back once, after it tried to store the account. -/
def Registering (q : Trace sig) : Stmt → Prop
  | .acme (.reserveEABAccountSlot _) => slotState q = .idle
  | .acme (.insertAcmeAccount a) => slotState q = .reserved a.eabID
  | .acme (.releaseEABAccountSlot cred) => slotState q = .tried cred
  | _ => True

/-- The effects of a registration on the slots. -/
def slotEffects : List Effect := [.reserveSlot, .insertAccount, .releaseSlot]

theorem registering_of_within {ks : List Effect} (h : ∀ k ∈ slotEffects, k ∉ ks) {q : Trace sig}
    {s : Stmt} (hs : Within ks s) : Registering q s := by
  unfold Registering
  split
  · exact absurd hs (h .reserveSlot (by decide))
  · exact absurd hs (h .insertAccount (by decide))
  · exact absurd hs (h .releaseSlot (by decide))
  · exact trivial

theorem next_of_within {ks : List Effect} (h : ∀ k ∈ slotEffects, k ∉ ks) {s : Stmt}
    (hs : Within ks s) (st : SlotState) (x : s.Ans) : st.next s x = st := by
  unfold SlotState.next
  split
  · exact absurd hs (h .reserveSlot (by decide))
  · exact absurd hs (h .insertAccount (by decide))
  · exact absurd hs (h .releaseSlot (by decide))
  · rfl

section

variable {ε α : Type} {ks : List Effect} {q : Trace sig}

/-- What has none of these effects leaves a registration where it stands. -/
theorem slot_traced (h : ∀ k ∈ slotEffects, k ∉ ks) {x : Handler ε α} (hx : x.Uses (Within ks)) :
    x.Traced Registering (fun q' _ => slotState q' = slotState q) q := by
  have hkeep : x.run.Traced Registering (fun q' _ => slotState q' = slotState q) q :=
    Prog.Uses.traced_keeps hx (fun _ _ _ hs => registering_of_within h hs)
      (fun q' s y hq' hs => by rw [slotState_snoc, next_of_within h hs, hq']) rfl
  exact hkeep.mono (fun _ _ => id) fun _ _ hq' _ _ => hq'

theorem reserve_traced (cred : Nat) (hq : slotState q = .idle) :
    (reserveEABAccountSlot cred).Traced Registering
      (fun q' reserved => reserved = true → slotState q' = .reserved cred) q := by
  refine (acme_traced (s := .reserveEABAccountSlot cred) hq).mapResult
    fun q' r reserved _ hr hreserved htrue => ?_
  subst htrue
  rw [hr _ (affectedOne_true hreserved), slotState_snoc, hq]
  rfl

/-- However the account was stored, or was not, the registration has tried. -/
theorem createAcmeAccount_traced (a : AcmeAccount) (hq : slotState q = .reserved a.eabID) :
    (createAcmeAccount a).run.Traced Registering (fun q' _ => slotState q' = .tried a.eabID) q := by
  refine Prog.traced_ask.mpr ⟨hq, fun x => ?_⟩
  have hx : slotState (q ++ [⟨.acme (.insertAcmeAccount a), x⟩]) = .tried a.eabID := by
    rw [slotState_snoc, hq]
    rfl
  cases x with
  | error e => exact Prog.traced_pure.mpr hx
  | ok id =>
    refine Prog.traced_ask.mpr ⟨trivial, fun y => Prog.traced_pure.mpr ?_⟩
    rw [slotState_snoc]
    have hread : Within [] (.acme (.selectAcmeAccount id)) := trivial
    exact (next_of_within (by decide) hread _ y).trans hx

variable [Go.Runtime] (s : Acme.Service)

omit [Go.Runtime] in
theorem register_traced (keyID : String) (cred : EABCred) (jwk : Pki.PublicKey)
    (contact : List String) (hq : slotState q = .idle) :
    (s.register keyID cred jwk contact).Traced Registering (fun _ _ => True) q := by
  refine Traced.bind (Traced.mapError (reserve_traced cred.id hq)) fun q₁ reserved _ hreserved => ?_
  have hany {β : Type} {x : Handler Problem β} {q' : Trace sig} (hx : x.Uses (Within [])) :
      x.Traced Registering (fun _ _ => True) q' :=
    (slot_traced (by decide) hx).mono fun _ _ _ => trivial
  refine traced_ite (fun _ => hany (rejectAccount_uses s keyID _)) fun hnot => ?_
  have hq₁ := hreserved (by simpa using hnot)
  refine Traced.bind (traced_attempt (createAcmeAccount_traced _ hq₁)) fun q₂ created _ hq₂ => ?_
  cases created with
  | ok account =>
    exact (hany (recordAudit_uses s.caSvc _ _ _ _ _)).bind fun _ _ _ _ => traced_pure trivial
  | error e =>
    have hrelease : (releaseEABAccountSlot cred.id).Traced Registering (fun _ _ => True) q₂ :=
      (acme_traced (s := .releaseEABAccountSlot cred.id) hq₂).mono fun _ _ _ => trivial
    exact (hrelease.attempt fun _ _ _ _ => trivial).bind fun _ _ _ _ => traced_throw

theorem newAccount_traced (body : Body) :
    (s.newAccount body).Traced Registering (fun _ _ => True) [] := by
  -- Up to the reservation the registration stays idle.
  have hidle {ε β : Type} {x : Handler ε β} {q : Trace sig} (hq : slotState q = .idle)
      (hx : x.Uses (Within [.consumeNonce, .touchAccount])) :
      x.Traced Registering (fun q' _ => slotState q' = .idle) q :=
    (slot_traced (by decide) hx).mono fun _ _ h => h.trans hq
  have hstart : slotState [] = .idle := rfl
  refine (hidle hstart (uses_ofExcept _)).bind fun q₁ j _ hq₁ => ?_
  refine (hidle hq₁ (uses_ofExcept _)).bind fun q₂ _ _ hq₂ => ?_
  refine (hidle hq₂ (checkNonce_uses (by decide) j)).bind fun q₃ _ _ hq₃ => ?_
  refine (hidle hq₃ (uses_ofExcept _)).bind fun q₄ jwk _ hq₄ => ?_
  refine (hidle hq₄ (uses_ofExcept _)).bind fun q₅ req _ hq₅ => ?_
  have hlookup : (getAcmeAccountByThumbprint jwk).Uses (Within [.consumeNonce, .touchAccount]) :=
    (acme_uses trivial).mapResult _
  refine (hidle hq₅ hlookup.attempt).bind fun q₆ existing _ hq₆ => ?_
  cases existing with
  | ok account =>
    refine (hidle hq₆ (uses_failIf _ _)).bind fun q₇ _ _ hq₇ => ?_
    have htouch : (touchAcmeAccountUsed account.id).Uses (Within [.consumeNonce, .touchAccount]) :=
      acme_uses (show Effect.touchAccount ∈ _ by decide)
    exact (hidle hq₇ htouch.attempt).bind fun _ _ _ _ => traced_pure trivial
  | error e =>
    refine (hidle hq₆ (uses_failIf _ _)).bind fun q₇ _ _ hq₇ => ?_
    refine (hidle hq₇ (uses_failIf _ _)).bind fun q₈ _ _ hq₈ => ?_
    refine (hidle hq₈ (uses_ofExcept _)).bind fun q₉ _ _ hq₉ => ?_
    refine (hidle hq₉ (bindingCred_uses s req j.url jwk)).bind fun q₁₀ bound _ hq₁₀ => ?_
    exact register_traced s bound.1 bound.2 jwk req.contact hq₁₀

/-- **Every call registers in this order.** -/
theorem serve_registering (c : Call) : c.serve.Traced Registering (fun _ _ => True) [] := by
  obtain ⟨acme, request⟩ := c
  by_cases h : ∃ body, request = .newAccount body
  · obtain ⟨body, rfl⟩ := h
    exact replying_traced (newAccount_traced acme body)
  · have hks : ∀ k ∈ slotEffects, k ∉ request.effects := by
      cases request with
      | newAccount body => exact absurd ⟨body, rfl⟩ h
      | _ => simp [slotEffects, Request.effects]
    exact (serve_uses ⟨acme, request⟩).traced.mono
      (fun q s hs => registering_of_within hks hs) fun _ _ _ => trivial

end

/-! ## Runs -/

/-- The accounts of a credential are within its cap, where it has one, and within its count. -/
def WithinCap (cred : Nat) (w : World) : Prop :=
  ∀ r, w.acme.eabCreds.get? cred = some r → 0 < r.maxAccounts →
    (w.acme.accountsOf cred : Int) ≤ r.maxAccounts ∧
      (w.acme.accountsOf cred : Int) ≤ r.accountCount

/-- The accounts of a credential and the slots held besides are within its count, and the count is
within its cap, where it has one. -/
def SlotsWithin (cred held : Nat) (w : World) : Prop :=
  ∀ r, w.acme.eabCreds.get? cred = some r → 0 < r.maxAccounts →
    (w.acme.accountsOf cred : Int) + held ≤ r.accountCount ∧ r.accountCount ≤ r.maxAccounts

theorem SlotsWithin.withinCap {cred held : Nat} {w : World} (h : SlotsWithin cred held w) :
    WithinCap cred w := by
  intro r hr hmax
  obtain ⟨h₁, h₂⟩ := h r hr hmax
  exact ⟨by omega, by omega⟩

/-- A state of a registration that comes from an answer was there before, or is a reservation. -/
theorem SlotState.next_eq_reserved {st : SlotState} {s : Stmt} {x : s.Ans} {cred : Nat}
    (h : st.next s x = .reserved cred) :
    st = .reserved cred ∨ (⟨s, x⟩ : (s : Stmt) × s.Ans) =
      ⟨.acme (.reserveEABAccountSlot cred), .ok (1 : Nat)⟩ := by
  unfold SlotState.next at h
  split at h
  · cases h; exact .inr rfl
  · cases h
  · cases h
  · exact .inl h

/-- And a registration that has tried had reserved a slot. -/
theorem SlotState.next_eq_tried {st : SlotState} {s : Stmt} {x : s.Ans} {cred : Nat}
    (h : st.next s x = .tried cred) : st = .tried cred ∨ st = .reserved cred := by
  unfold SlotState.next at h
  split at h
  · cases h
  · cases h; exact .inr rfl
  · cases h
  · exact .inl h

section Run

variable [Go.Runtime] (w : World) (calls : List Call) (moves : Pool.Schedule Env) (cred : Nat)

/-- At move `i` thread `t` stores an account under the credential, whatever it is answered. -/
def StoredAt (t i : Nat) : Prop :=
  ∃ e a x, Pool.AskedAt exec (serving w calls) moves i t e (.acme (.insertAcmeAccount a)) x ∧
    a.eabID = cred ∧ e.fault.commits = true ∧
    (servedUpto w calls moves i).world.acme.accountConflict a = none

/-- At move `j` thread `t` gives a slot of the credential back. -/
def GivenBackAt (t j : Nat) : Prop :=
  ∃ e x, Pool.AskedAt exec (serving w calls) moves j t e (.acme (.releaseEABAccountSlot cred)) x ∧
    e.fault.commits = true

/-- No registration gives back the slot of an account that it has stored. -/
def SlotsKept : Prop :=
  ∀ t i j, i < j → StoredAt w calls moves cred t i → ¬ GivenBackAt w calls moves cred t j

variable {w calls moves cred}

/-- What is known of the slots at move `n`: some threads hold one, among them each that has
reserved a slot and not stored its account yet. -/
structure SlotsHeld (w : World) (calls : List Call) (moves : Pool.Schedule Env) (cred n : Nat)
    (holders : Finset Nat) : Prop where
  within : SlotsWithin cred holders.card (servedUpto w calls moves n).world
  reserved : ∀ t, slotState (own t (servedUpto w calls moves n).history) = .reserved cred →
    t ∈ holders
  tried : ∀ t, slotState (own t (servedUpto w calls moves n).history) = .tried cred →
    (∀ i, i < n → ¬ StoredAt w calls moves cred t i) → t ∈ holders

/-- The step of a thread that takes a slot, or keeps the one it has. -/
theorem SlotsHeld.grow {n t : Nat} {s : Stmt} {x : s.Ans} {holders holders' : Finset Nat}
    (h : SlotsHeld w calls moves cred n holders)
    (hhist : (servedUpto w calls moves (n + 1)).history =
      (servedUpto w calls moves n).history ++ [⟨t, s, x⟩]) (hsub : holders ⊆ holders')
    (htaken : (⟨s, x⟩ : (s : Stmt) × s.Ans) =
      ⟨.acme (.reserveEABAccountSlot cred), .ok (1 : Nat)⟩ → t ∈ holders')
    (hwithin : SlotsWithin cred holders'.card (servedUpto w calls moves (n + 1)).world) :
    SlotsHeld w calls moves cred (n + 1) holders' := by
  have hlater {u : Nat} (hu : ∀ i, i < n + 1 → ¬ StoredAt w calls moves cred u i) :
      ∀ i, i < n → ¬ StoredAt w calls moves cred u i := fun i hi => hu i (by omega)
  refine ⟨hwithin, fun u hu => ?_, fun u hu hnot => ?_⟩
  · by_cases hut : t = u
    · subst hut
      rw [hhist, Interleave.own_snoc_self, slotState_snoc] at hu
      obtain hu | hu := SlotState.next_eq_reserved hu
      · exact hsub (h.reserved t hu)
      · exact htaken hu
    · rw [hhist, Interleave.own_snoc_of_ne hut] at hu
      exact hsub (h.reserved u hu)
  · by_cases hut : t = u
    · subst hut
      rw [hhist, Interleave.own_snoc_self, slotState_snoc] at hu
      obtain hu | hu := SlotState.next_eq_tried hu
      · exact hsub (h.tried t hu (hlater hnot))
      · exact hsub (h.reserved t hu)
    · rw [hhist, Interleave.own_snoc_of_ne hut] at hu
      exact hsub (h.tried u hu (hlater hnot))

/-- The step of a thread that gives up the slot it holds: it has stored its account, or has given
the slot back. -/
theorem SlotsHeld.shrink {n t : Nat} {s : Stmt} {x : s.Ans} {holders : Finset Nat}
    (h : SlotsHeld w calls moves cred n holders)
    (hhist : (servedUpto w calls moves (n + 1)).history =
      (servedUpto w calls moves n).history ++ [⟨t, s, x⟩])
    (hreserved : (slotState (own t (servedUpto w calls moves n).history)).next s x ≠ .reserved cred)
    (htried : (slotState (own t (servedUpto w calls moves n).history)).next s x = .tried cred →
      StoredAt w calls moves cred t n)
    (hwithin : SlotsWithin cred (holders.erase t).card (servedUpto w calls moves (n + 1)).world) :
    SlotsHeld w calls moves cred (n + 1) (holders.erase t) := by
  refine ⟨hwithin, fun u hu => ?_, fun u hu hnot => ?_⟩
  · by_cases hut : t = u
    · subst hut
      rw [hhist, Interleave.own_snoc_self, slotState_snoc] at hu
      exact absurd hu hreserved
    · rw [hhist, Interleave.own_snoc_of_ne hut] at hu
      exact Finset.mem_erase.mpr ⟨Ne.symm hut, h.reserved u hu⟩
  · by_cases hut : t = u
    · subst hut
      rw [hhist, Interleave.own_snoc_self, slotState_snoc] at hu
      exact absurd (htried hu) (hnot n (by omega))
    · rw [hhist, Interleave.own_snoc_of_ne hut] at hu
      exact Finset.mem_erase.mpr ⟨Ne.symm hut, h.tried u hu fun i hi => hnot i (by omega)⟩

/-- **The step of the slots.** -/
theorem SlotsHeld.step {n : Nat} (hn : n < moves.length)
    (hkept : SlotsKept w calls moves cred) {holders : Finset Nat}
    (h : SlotsHeld w calls moves cred n holders) :
    ∃ holders', SlotsHeld w calls moves cred (n + 1) holders' := by
  obtain hs | ⟨s, x, hasked, hhist⟩ := Pool.upto_asked exec (serving w calls) hn
  · have hsame : servedUpto w calls moves (n + 1) = servedUpto w calls moves n := hs
    refine ⟨holders, by rw [hsame]; exact h.within, ?_, fun t ht hnot => ?_⟩
    · rw [hsame]
      exact h.reserved
    · rw [hsame] at ht
      exact h.tried t ht fun i hi => hnot i (by omega)
  have hhist' : (servedUpto w calls moves (n + 1)).history =
    (servedUpto w calls moves n).history ++ [⟨moves[n].1, s, x⟩] := hhist
  by_cases htaken : (⟨s, x⟩ : (s : Stmt) × s.Ans) =
      ⟨.acme (.reserveEABAccountSlot cred), .ok (1 : Nat)⟩
  · -- A slot was free, and the thread holds it from now on.
    cases htaken
    obtain ⟨r, hr, hfree, hr', haccounts⟩ := reserved_of_ok hasked.exec
    refine ⟨insert moves[n].1 holders, h.grow hhist' (Finset.subset_insert _ _)
      (fun _ => Finset.mem_insert_self _ _) ?_⟩
    intro r' hrow hmax
    obtain rfl := Option.some.inj (hr'.symm.trans hrow)
    have hcard := Finset.card_insert_le moves[n].1 holders
    have hcount : (servedUpto w calls moves (n + 1)).world.acme.accountsOf cred =
      (servedUpto w calls moves n).world.acme.accountsOf cred := haccounts
    obtain ⟨hle, hcap⟩ := h.within r hr hmax
    rw [hcount]
    dsimp only at hmax ⊢
    constructor <;> omega
  · have hstep : SlotStep moves[n].2 (servedUpto w calls moves n).world.acme cred s
        ((servedUpto w calls moves n).world.acme.accountsOf cred)
        ((servedUpto w calls moves n).world.acme.eabCreds.get? cred)
        ((servedUpto w calls moves (n + 1)).world.acme.accountsOf cred)
        ((servedUpto w calls moves (n + 1)).world.acme.eabCreds.get? cred) :=
      slot_step hasked.exec cred
    obtain ⟨_, _, hregistering⟩ := allowed_upto serve_registering hasked.next
    have hwithin := h.within
    unfold SlotsWithin at hwithin
    generalize hrow : (servedUpto w calls moves n).world.acme.eabCreds.get? cred = r,
      hrow' : (servedUpto w calls moves (n + 1)).world.acme.eabCreds.get? cred = r',
      (servedUpto w calls moves n).world.acme.accountsOf cred = k,
      hcount' : (servedUpto w calls moves (n + 1)).world.acme.accountsOf cred = k'
      at hstep hwithin
    cases hstep with
    | same =>
      refine ⟨holders, h.grow hhist' (Finset.Subset.refl _) (fun ht => absurd ht htaken) ?_⟩
      unfold SlotsWithin
      rw [hcount', hrow']
      exact hwithin
    | reserved _ r hc hfree =>
      -- The reservation took effect and failed: the slot is nobody's.
      refine ⟨holders, h.grow hhist' (Finset.Subset.refl _) (fun ht => absurd ht htaken) ?_⟩
      intro r' hr' hmax
      obtain rfl := Option.some.inj (hrow'.symm.trans hr')
      obtain ⟨hle, hcap⟩ := hwithin r rfl hmax
      rw [hcount']
      dsimp only at hmax ⊢
      constructor <;> omega
    | released _ r hc =>
      have htried : slotState (own moves[n].1 (servedUpto w calls moves n).history) =
        .tried cred := hregistering
      have hback : GivenBackAt w calls moves cred moves[n].1 n := ⟨_, x, hasked, hc⟩
      have hholds := h.tried moves[n].1 htried fun i hi hstored => hkept _ i n hi hstored hback
      refine ⟨holders.erase moves[n].1, h.shrink hhist' ?_ ?_ ?_⟩
      · rw [htried]; nofun
      · rw [htried]; nofun
      · intro r' hr' hmax
        obtain rfl := Option.some.inj (hrow'.symm.trans hr')
        have hpos := Finset.card_pos.mpr ⟨_, hholds⟩
        obtain ⟨hle, hcap⟩ := hwithin r rfl hmax
        rw [hcount', Finset.card_erase_of_mem hholds]
        dsimp only at hmax ⊢
        constructor <;> omega
    | stored a _ _ hc hcred hnew =>
      have hreserved : slotState (own moves[n].1 (servedUpto w calls moves n).history) =
        .reserved cred := hcred ▸ hregistering
      have hholds := h.reserved moves[n].1 hreserved
      refine ⟨holders.erase moves[n].1, h.shrink hhist' ?_ ?_ ?_⟩
      · rw [hreserved]; nofun
      · exact fun _ => ⟨_, a, x, hasked, hcred, hc, hnew⟩
      · intro r' hr' hmax
        rw [hrow'] at hr'
        have hpos := Finset.card_pos.mpr ⟨_, hholds⟩
        obtain ⟨hle, hcap⟩ := hwithin r' hr' hmax
        rw [hcount', Finset.card_erase_of_mem hholds]
        constructor <;> omega

end Run

/-! ## A slot that is given back too often -/

open Samples

/-- A database with the credential, which allows one account and has none, and one nonce. -/
def oneSlot : World :=
  { World.empty creds with acme := { AcmeTables.empty creds with nonces := [⟨"n0", 600⟩] } }

/-- One registration. -/
def oneRegistration : List Call := [⟨replica, .newAccount (registration "n0")⟩]

/-- The account is stored, but the connection fails before the answer arrives. -/
def lostAnswer : Pool.Schedule Env :=
  inTurn (List.replicate 6 0) ++ [(0, { now := 100, fault := .late "connection reset" })] ++
    inTurn [0]

theorem oneSlot_within : SlotsWithin 1 0 oneSlot := by
  rintro r ⟨⟩ _
  decide

/-- The registration from its first statement to its last, without a fault. -/
def undisturbed : Pool.Schedule Env := inTurn (List.replicate 9 0)

/-- Whether a statement gives a slot back. -/
def givesBack : Option Stmt → Bool
  | some (.acme (.releaseEABAccountSlot _)) => true
  | _ => false

end Goca
