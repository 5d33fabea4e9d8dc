
import LineScript.Proofs.AssignmentFailure

/-!
# Access to elements

A name and indices in brackets give a value just if each index stands for a place in the list that the indices before it lead
to (`accessArray_eq_ok_iff`). What follows the last index does not count, blank or not.
-/

namespace LineScript.Run

open Text Line List

variable {s t u : Session} {v w : Value} {code name rest text : List Char} {indices : List (List Char)}

/-! ## Texts -/

def bracketed (indices : List (List Char)) : List Char := indices.flatMap fun e => '[' :: e ++ [']']

/-- A text is a name and indices in brackets, and ends in a rest that starts no other index. -/
structure Indexed (code name : List Char) (indices : List (List Char)) (rest : List Char) : Prop where
  spelled : code = name ++ (bracketed indices ++ rest)
  name : '[' ∉ name
  indices : indices ≠ [] ∧ ∀ e ∈ indices, ']' ∉ e
  rest : rest.head? ≠ some '['

/-! ## Paths -/

/-- The value that indices lead to from a value, each evaluated after those before it. -/
inductive IndexPath : Value → List (List Char) → Value → Session → Session → Prop
  | here {v : Value} {s : Session} : IndexPath v [] v s s
  | step {v i next : Value} {e : List Char} {indices : List (List Char)} {s t u : Session} {ref n : Nat}
      (index : (value e).outcome s = (.ok i, u)) (whole : Value.count? i = some n)
      (element : (u.depot.world.store.items ref)[n]? = some next)
      (further : IndexPath next indices v u t) : IndexPath (.list ref) (e :: indices) v s t

/-- What gives a value just where one is due gives that value, if there is only one. -/
theorem eq_ok_iff {α : Type} {x : Run α} {a : α} {due : α → Session → Prop} (leads : Leads x s due fun _ _ => ∀ a t, ¬due a t)
    (unique : ∀ {a b t u}, due a t → due b u → a = b ∧ t = u) : x.outcome s = (.ok a, t) ↔ due a t := by
  refine ⟨leads.result, fun here => ?_⟩
  rcases ended : x.outcome s with ⟨e | b, u⟩
  · exact absurd here (leads.reason ended _ _)
  · obtain ⟨rfl, rfl⟩ := unique here (leads.result ended)
    rfl

theorem elementAt_eq_ok_iff {current index : Value} : (elementAt current index).outcome s = (.ok v, t) ↔
      t = s ∧ ∃ ref n : Nat, current = .list ref ∧ Value.count? index = some (n : Int) ∧
        (s.depot.world.store.items ref)[n]? = some v := by
  apply eq_ok_iff
  · refine .bind (leads_indexValue (fun n count => ?_) fun none _ _ _ => by simp [none])
    cases current with
    | list ref =>
      refine .bind (leads_world (.bind ((leads_elementPlace index n _).mono ?_ ?_)))
      · rintro i _ ⟨rfl, rfl, inside⟩
        exact .pure ⟨rfl, ref, i, rfl, count, by simp [inside]⟩
      · rintro _ _ ⟨rfl, outside⟩ a t ⟨-, _, k, same, count', element⟩
        cases same
        cases count.symm.trans count'
        obtain ⟨within, -⟩ := List.getElem?_eq_some_iff.mp element
        omega
    | _ => exact .throw (by simp)
  · rintro a b t u ⟨rfl, ref, n, rfl, count, element⟩ ⟨rfl, _, _, same, count', element'⟩
    cases same
    cases count.symm.trans count'
    exact ⟨Option.some.inj (element.symm.trans element'), rfl⟩

theorem wrappingForeign_eq_ok_iff {α : Type} {wrap : String → Runtime} {x : Run α} {a : α} :
    (wrappingForeign wrap x).outcome s = (.ok a, t) ↔ x.outcome s = (.ok a, t) := by
  rw [wrappingForeign_eq, outcome_recover_fail]
  rcases x.outcome s with ⟨e | b, u⟩
  · refine ⟨nofun, nofun⟩
  · rfl

theorem bracketed_cons (e : List Char) (indices : List (List Char)) (rest : List Char) :
    bracketed (e :: indices) ++ rest = '[' :: (e ++ ']' :: (bracketed indices ++ rest)) := by simp [bracketed]

theorem followIndices_index {e : List Char} (whole : ']' ∉ e) (n : Nat) (rest : List Char) :
    followIndices (n + 1) w ('[' :: (e ++ ']' :: rest)) =
      (do followIndices n (← wrappingForeign .accessingIndex (do elementAt w (← value e))) rest) := by
  have cut : cut? [']'] ('[' :: (e ++ ']' :: rest)) = some ('[' :: e, rest) :=
    cut?_append (a := '[' :: e) (by simpa using whole) rest
  rw [followIndices, cut]
  rfl

theorem followIndices_rest (last : text.head? ≠ some '[') (n : Nat) : followIndices n w text = pure w := by
  cases n with
  | zero => rfl
  | succ n =>
    rw [followIndices]
    rintro _ rfl
    exact last rfl

/-- The indices at the front of a text are followed one by one. -/
theorem followIndices_eq_ok_iff {fuel : Nat} (enough : text.length < fuel) :
    (followIndices fuel w text).outcome s = (.ok v, t) ↔
      ∃ indices rest, text = bracketed indices ++ rest ∧ (∀ e ∈ indices, ']' ∉ e) ∧ rest.head? ≠ some '[' ∧
        IndexPath w indices v s t := by
  induction fuel generalizing w text s with
  | zero => exact absurd enough (Nat.not_lt_zero _)
  | succ fuel ih =>
    constructor
    · intro ended
      by_cases starts : text.head? = some '['
      · obtain ⟨tail, rfl⟩ := head?_eq_some_iff.mp starts
        by_cases closes : ']' ∈ tail
        · obtain ⟨e, rest, rfl, whole⟩ := eq_append_cons_of_mem closes
          have shorter : rest.length < fuel := by
            simp at enough
            omega
          rw [followIndices_index whole] at ended
          obtain ⟨next, u, accessed, further⟩ := bind_eq_ok_iff.mp ended
          obtain ⟨i, u, index, element⟩ := bind_eq_ok_iff.mp (wrappingForeign_eq_ok_iff.mp accessed)
          obtain ⟨rfl, ref, n, rfl, count, element⟩ := elementAt_eq_ok_iff.mp element
          obtain ⟨indices, rest, rfl, closed, last, path⟩ := (ih shorter).mp further
          exact ⟨e :: indices, rest, (bracketed_cons _ _ _).symm, forall_mem_cons.mpr ⟨whole, closed⟩, last,
            .step index count element path⟩
        · rw [followIndices, cut?_eq_none (by simpa using closes)] at ended
          cases ended
      · rw [followIndices_rest starts] at ended
        cases ended
        exact ⟨[], text, rfl, by simp, starts, .here⟩
    · rintro ⟨indices, rest, rfl, closed, last, path⟩
      cases path with
      | here => exact congrArg (outcome · _) (followIndices_rest last _)
      | @step _ i next e indices _ _ u ref n index whole element further =>
        rw [bracketed_cons] at enough ⊢
        have shorter : (bracketed indices ++ rest).length < fuel := by
          simp at enough ⊢
          omega
        have accessed := elementAt_eq_ok_iff.mpr ⟨rfl, ref, n, rfl, whole, element⟩
        rw [followIndices_index (closed e mem_cons_self)]
        refine bind_eq_ok_iff.mpr ⟨next, u, ?_, ?_⟩
        · exact wrappingForeign_eq_ok_iff.mpr (bind_eq_ok_iff.mpr ⟨i, u, index, accessed⟩)
        · exact (ih shorter).mpr ⟨indices, rest, rfl, fun e member => closed e (mem_cons_of_mem _ member), last, further⟩

theorem splitBracket?_append (free : '[' ∉ name) (tail : List Char) :
    splitBracket? (name ++ '[' :: tail) = some (String.ofList (strip name), '[' :: tail) := by
  have passed : ∀ c ∈ name, decide (c ≠ '[') = true := fun c member => decide_eq_true fun same => free (same ▸ member)
  unfold splitBracket?
  rw [if_pos (by simp), takeWhile_append_of_pos passed, dropWhile_append_of_pos passed]
  simp

theorem variableNamed_eq_ok_iff {x : String} :
    (variableNamed x).outcome s = (.ok w, t) ↔ t = s ∧ s.vars.find? x = some w := by
  apply eq_ok_iff (leads_variableNamed (fun v found => ⟨rfl, found⟩) fun none _ _ _ => by simp [none])
  rintro v w t u ⟨rfl, found⟩ ⟨rfl, found'⟩
  exact ⟨Option.some.inj (found.symm.trans found'), rfl⟩

/-- **A text gives an element just if it is the name of a variable and indices that lead there**, whatever follows them. -/
theorem accessArray_eq_ok_iff :
    (accessArray code).outcome s = (.ok v, t) ↔
      ∃ name indices rest w u, Indexed code name indices rest ∧ s.vars.find? (String.ofList (strip name)) = some w ∧
        (act Pkg.touch).outcome s = (.ok (), u) ∧ IndexPath w indices v u t := by
  unfold accessArray
  constructor
  · intro ended
    by_cases bracket : '[' ∈ code
    · obtain ⟨name, tail, rfl, free⟩ := eq_append_cons_of_mem bracket
      rw [splitBracket?_append free] at ended
      obtain ⟨w, _, named, looked⟩ := bind_eq_ok_iff.mp ended
      obtain ⟨rfl, found⟩ := variableNamed_eq_ok_iff.mp named
      obtain ⟨_, u, touched, followed⟩ := bind_eq_ok_iff.mp looked
      obtain ⟨indices, rest, spelled, closed, last, path⟩ := (followIndices_eq_ok_iff (Nat.lt_succ_self _)).mp followed
      refine ⟨name, indices, rest, w, u, ⟨congrArg (name ++ ·) spelled, free, ⟨?_, closed⟩, last⟩, found, touched, path⟩
      rintro rfl
      exact last (congrArg List.head? spelled).symm
    · rw [splitBracket?, if_neg (by simpa using bracket)] at ended
      cases ended
  · rintro ⟨name, indices, rest, w, u, ⟨rfl, free, ⟨filled, closed⟩, last⟩, found, touched, path⟩
    obtain ⟨e, others, rfl⟩ := exists_cons_of_ne_nil filled
    have followed := (followIndices_eq_ok_iff (Nat.lt_succ_self _)).mpr ⟨e :: others, rest, rfl, closed, last, path⟩
    rw [bracketed_cons] at followed ⊢
    rw [splitBracket?_append free]
    have named := variableNamed_eq_ok_iff.mpr ⟨rfl, found⟩
    exact bind_eq_ok_iff.mpr ⟨w, s, named, bind_eq_ok_iff.mpr ⟨(), u, touched, followed⟩⟩

def listing : Session := { vars := [("x", .list 0)], depot.world.store.lists := #[[.int 7, .int 8]] }

/-- What follows the last index is passed over. -/
theorem trailing_text_ignored :
    Indexed "x[0]junk".toList "x".toList ["0".toList] "junk".toList ∧ strip "junk".toList ≠ [] ∧
      ∃ v, ((accessArray "x[0]junk".toList).outcome listing).1 = .ok v ∧ Value.count? v = some 7 := by
  have counted : ((accessArray "x[0]junk".toList).outcome listing).1.toOption.bind Value.count? = some 7 := by decide +kernel
  refine ⟨⟨rfl, by decide, ⟨by decide, by decide⟩, by decide⟩, by decide, ?_⟩
  cases ended : ((accessArray "x[0]junk".toList).outcome listing).1 with
  | error e =>
    rw [ended] at counted
    cases counted
  | ok v =>
    rw [ended] at counted
    exact ⟨v, rfl, counted⟩

end LineScript.Run
