import Goca.Go.Decimal

/-!
# Package path: Clean

`path.Clean` brings a path into its shortest form, by its elements alone: empty elements and `.` go,
`..` goes with the element before it, and at the root of an absolute path alone. What is left of
`..` stands in front, so a relative path that is clean and begins with none stays where it is
(`inside_of_clean`).
-/

set_option autoImplicit false

namespace Go

/-- The element above. -/
def dotdot : List Char := ['.', '.']

/-- One more element of a path, over the elements so far, the last one first. -/
def pushElem (rooted : Bool) (elems : List (List Char)) (e : List Char) : List (List Char) :=
  if e = [] ∨ e = ['.'] then elems
  else if e = dotdot then
    match elems with
    | [] => if rooted = true then [] else [dotdot]
    | top :: below => if top = dotdot then dotdot :: top :: below else below
  else e :: elems

/-- The elements of the shortest form of a path. -/
def cleanElems (rooted : Bool) (path : List Char) : List (List Char) :=
  ((path.splitOn '/').foldl (pushElem rooted) []).reverse

/-- Elements with a slash between any two. -/
def joinElems (elems : List (List Char)) : List Char := ['/'].intercalate elems

/-- `path.IsAbs`. -/
def isAbs (path : String) : Bool := path.toList.head? == some '/'

/-- `path.Clean`. -/
def clean (path : String) : String :=
  let body := joinElems (cleanElems (isAbs path) path.toList)
  if isAbs path = true then .ofList ('/' :: body)
  else if body = [] then "." else .ofList body

example : clean "a//b/./../c/" = "a/c" ∧ clean "a/../../b" = "../b" ∧ clean "" = "." ∧
    clean "/../a" = "/a" := by decide +kernel

/-! ## What is left of a path -/

/-- **An element that leads to a file below**: none that a path can do without, and none that leads
up. -/
structure IsElem (e : List Char) : Prop where
  nonempty : e ≠ []
  notDot : e ≠ ['.']
  notDotdot : e ≠ dotdot
  noSlash : '/' ∉ e

/-- **A path that stays inside** the directory that it is taken from. -/
def Inside (path : String) : Prop :=
  ∃ elems, elems ≠ [] ∧ path.toList = joinElems elems ∧ ∀ e ∈ elems, IsElem e

/-- The elements that lead up come first. -/
def Settled (elems : List (List Char)) : Prop :=
  ∃ down up, elems = down ++ up ∧ (∀ e ∈ down, IsElem e) ∧ ∀ e ∈ up, e = dotdot

theorem settled_nil : Settled [] :=
  ⟨[], [], rfl, fun _ h => absurd h List.not_mem_nil, fun _ h => absurd h List.not_mem_nil⟩

/-- One more element leaves them so. -/
theorem settled_pushElem {rooted : Bool} {elems : List (List Char)} {e : List Char}
    (h : Settled elems) (he : '/' ∉ e) : Settled (pushElem rooted elems e) := by
  obtain ⟨down, up, rfl, hdown, hup⟩ := h
  unfold pushElem
  by_cases hempty : e = [] ∨ e = ['.']
  · rw [if_pos hempty]
    exact ⟨down, up, rfl, hdown, hup⟩
  · rw [if_neg hempty]
    by_cases hdots : e = dotdot
    · rw [if_pos hdots]
      cases down with
      | cons top below =>
        -- The last element goes.
        have htop := (hdown top List.mem_cons_self).notDotdot
        rw [List.cons_append]
        dsimp only
        rw [if_neg htop]
        exact ⟨below, up, rfl, fun e he => hdown e (List.mem_cons_of_mem top he), hup⟩
      | nil =>
        rw [List.nil_append]
        cases up with
        | nil =>
          dsimp only
          by_cases hrooted : rooted = true
          · rw [if_pos hrooted]
            exact settled_nil
          · rw [if_neg hrooted]
            exact ⟨[], [dotdot], rfl, hdown, fun e he => List.mem_singleton.mp he⟩
        | cons top below =>
          dsimp only
          rw [if_pos (hup top List.mem_cons_self)]
          refine ⟨[], dotdot :: top :: below, rfl, hdown, fun e he => ?_⟩
          rcases List.mem_cons.mp he with rfl | he
          · rfl
          · exact hup e he
    · rw [if_neg hdots]
      rw [not_or] at hempty
      refine ⟨e :: down, up, rfl, fun e' he' => ?_, hup⟩
      rcases List.mem_cons.mp he' with rfl | he'
      · exact ⟨hempty.1, hempty.2, hdots, he⟩
      · exact hdown e' he'

/-- So does every path. -/
theorem settled_foldl {rooted : Bool} (es : List (List Char)) {elems : List (List Char)}
    (h : Settled elems) (hes : ∀ e ∈ es, '/' ∉ e) :
    Settled (es.foldl (pushElem rooted) elems) := by
  induction es generalizing elems with
  | nil => exact h
  | cons e es ih =>
    refine ih (settled_pushElem h (hes e List.mem_cons_self)) fun e' he' => ?_
    exact hes e' (List.mem_cons_of_mem e he')

/-- **The shortest form of a path** leads up first, and then down. -/
theorem cleanElems_settled (rooted : Bool) (path : List Char) :
    ∃ up down, cleanElems rooted path = up ++ down ∧ (∀ e ∈ up, e = dotdot) ∧
      ∀ e ∈ down, IsElem e := by
  have hparts : ∀ e ∈ path.splitOn '/', '/' ∉ e := by
    intro e he hslash
    have hnot := Words.not_of_mem_splitOnP (q := (· == '/')) he '/' hslash
    rw [beq_self_eq_true] at hnot
    cases hnot
  have hsettled : Settled ((path.splitOn '/').foldl (pushElem rooted) []) :=
    settled_foldl (path.splitOn '/') settled_nil hparts
  obtain ⟨down, up, heq, hdown, hup⟩ := hsettled
  refine ⟨up.reverse, down.reverse, ?_, fun e he => hup e (List.mem_reverse.mp he),
    fun e he => hdown e (List.mem_reverse.mp he)⟩
  unfold cleanElems
  rw [heq, List.reverse_append]

/-- **A clean path stays inside** where it is relative, and neither the directory itself nor above
it. -/
theorem inside_of_clean {path : String} (hdot : clean path ≠ ".") (hup : clean path ≠ "..")
    (hfront : hasPrefix (clean path) "../" = false) (habs : isAbs (clean path) = false) :
    Inside (clean path) := by
  obtain ⟨up, down, heq, hups, hdowns⟩ := cleanElems_settled (isAbs path) path.toList
  unfold clean at *
  by_cases hrooted : isAbs path = true
  · -- What is absolute stays absolute.
    rw [if_pos hrooted] at habs
    unfold isAbs at habs
    rw [String.toList_ofList, List.head?_cons, beq_self_eq_true] at habs
    cases habs
  · rw [if_neg hrooted] at *
    by_cases hbody : joinElems (cleanElems (isAbs path) path.toList) = []
    · rw [if_pos hbody] at hdot
      exact absurd rfl hdot
    · rw [if_neg hbody] at *
      cases up with
      | nil =>
        refine ⟨down, fun hnil => ?_, ?_, hdowns⟩
        · rw [heq, hnil] at hbody
          exact hbody rfl
        · rw [String.toList_ofList, heq]
          rfl
      | cons e up =>
        -- An element that leads up is the whole path, or in front of a slash.
        obtain rfl := hups e List.mem_cons_self
        rw [heq, List.cons_append] at hup hfront
        cases hrest : up ++ down with
        | nil =>
          rw [hrest] at hup
          exact absurd rfl hup
        | cons e' rest =>
          rw [hrest] at hfront
          have hfront' : ("../".toList.isPrefixOf
              (String.ofList (joinElems (dotdot :: e' :: rest))).toList) = false := hfront
          rw [String.toList_ofList (l := joinElems _)] at hfront'
          cases hfront'

end Go
