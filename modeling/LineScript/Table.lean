/-!
# Tables

Names with what they stand for, in the order in which the names came first.
-/

namespace LineScript

abbrev Table (α : Type) := List (String × α)

namespace Table

variable {α : Type}

def find? (t : Table α) (x : String) : Option α := t.lookup x

def contains (t : Table α) (x : String) : Bool := (t.lookup x).isSome

/-- A name that is there keeps its place, a new one goes to the end. -/
def set : Table α → String → α → Table α
  | [], x, a => [(x, a)]
  | (y, b) :: t, x, a => if y = x then (x, a) :: t else (y, b) :: set t x a

def erase (t : Table α) (x : String) : Table α := t.filter fun (y, _) => y ≠ x

def names (t : Table α) : List String := t.map Prod.fst

/-! ## Finding after a change -/

open List

variable {t : Table α} {x y : String} {a : α}

@[simp] theorem find?_nil (x : String) : find? ([] : Table α) x = none := rfl

theorem find?_cons (y : String) (b : α) (t : Table α) (x : String) :
    find? ((y, b) :: t) x = if y = x then some b else find? t x := by
  unfold find?
  rw [lookup_cons]
  by_cases h : y = x
  · simp [h]
  · have hx : (x == y) = false := beq_eq_false_iff_ne.mpr fun e => h e.symm
    simp [h, hx]

@[simp] theorem find?_set_self (t : Table α) (x : String) (a : α) :
    (t.set x a).find? x = some a := by
  induction t with
  | nil => simp [set, find?_cons]
  | cons p t ih =>
    obtain ⟨y, b⟩ := p
    by_cases h : y = x
    · simp [set, h, find?_cons]
    · simp [set, h, find?_cons, ih]

theorem find?_set_of_ne (t : Table α) (h : x ≠ y) (a : α) :
    (t.set x a).find? y = t.find? y := by
  induction t with
  | nil => simp [set, find?_cons, h]
  | cons p t ih =>
    obtain ⟨z, b⟩ := p
    by_cases hz : z = x
    · subst hz
      simp [set, find?_cons, h]
    · simp [set, hz, find?_cons, ih]

@[simp] theorem find?_erase_self (t : Table α) (x : String) : (t.erase x).find? x = none := by
  induction t with
  | nil => rfl
  | cons p t ih =>
    obtain ⟨y, b⟩ := p
    by_cases h : y = x
    · simpa [erase, filter_cons, h] using ih
    · simpa [erase, filter_cons, h, find?_cons] using ih

theorem find?_erase_of_ne (t : Table α) (h : x ≠ y) :
    (t.erase x).find? y = t.find? y := by
  induction t with
  | nil => rfl
  | cons p t ih =>
    obtain ⟨z, b⟩ := p
    by_cases hz : z = x
    · subst hz
      simpa [erase, filter_cons, find?_cons, h] using ih
    · simp only [erase, filter_cons, hz, ne_eq, not_false_eq_true, decide_true, if_true, find?_cons]
      by_cases hy : z = y
      · simp [hy]
      · simpa [erase, hy] using ih

/-! ## One change after another -/

theorem set_set (t : Table α) (x : String) (a b : α) : (t.set x a).set x b = t.set x b := by
  induction t with
  | nil => simp [set]
  | cons p t ih =>
    obtain ⟨y, c⟩ := p
    by_cases h : y = x
    · simp [set, h]
    · simp [set, h, ih]

/-- Changes of two names can be swapped if one of them is there already; of two new names the first one set
stands first. -/
theorem set_comm (t : Table α) (h : x ≠ y) (hy : (t.find? y).isSome) (a b : α) :
    (t.set x a).set y b = (t.set y b).set x a := by
  induction t with
  | nil => simp at hy
  | cons p t ih =>
    obtain ⟨z, c⟩ := p
    by_cases hzx : z = x
    · subst hzx
      simp [set, h]
    · by_cases hzy : z = y
      · subst hzy
        simp [set, hzx]
      · have ht : (find? t y).isSome := by simpa [find?_cons, hzy] using hy
        simp [set, hzx, hzy, ih ht]

theorem erase_set_self (t : Table α) (x : String) (a : α) : (t.set x a).erase x = t.erase x := by
  induction t with
  | nil => simp [set, erase]
  | cons p t ih =>
    obtain ⟨y, b⟩ := p
    by_cases h : y = x
    · simp [set, h, erase]
    · simpa [set, h, erase, filter_cons] using ih

theorem erase_set_of_ne (t : Table α) (h : x ≠ y) (a : α) :
    (t.set x a).erase y = (t.erase y).set x a := by
  induction t with
  | nil => simp [set, erase, h]
  | cons p t ih =>
    obtain ⟨z, b⟩ := p
    by_cases hzx : z = x
    · subst hzx
      simp [set, erase, h]
    · by_cases hzy : z = y
      · subst hzy
        simpa [set, hzx, erase, filter_cons] using ih
      · simpa [set, hzx, hzy, erase, filter_cons] using ih

/-- A new name goes to the end. -/
theorem set_of_find?_eq_none (h : t.find? x = none) (a : α) : t.set x a = t ++ [(x, a)] := by
  induction t with
  | nil => rfl
  | cons p t ih =>
    obtain ⟨y, b⟩ := p
    rw [find?_cons] at h
    by_cases hy : y = x
    · simp [hy] at h
    · rw [if_neg hy] at h
      simp [set, hy, ih h]

/-! ## Changes that change nothing -/

theorem set_of_find? (t : Table α) (h : t.find? x = some a) : t.set x a = t := by
  induction t with
  | nil => simp at h
  | cons p t ih =>
    obtain ⟨y, b⟩ := p
    rw [find?_cons] at h
    by_cases hy : y = x
    · rw [if_pos hy] at h
      obtain rfl := Option.some.inj h
      simp [set, hy]
    · rw [if_neg hy] at h
      simp [set, hy, ih h]

theorem erase_of_find? (t : Table α) (h : t.find? x = none) : t.erase x = t := by
  induction t with
  | nil => rfl
  | cons p t ih =>
    obtain ⟨y, b⟩ := p
    rw [find?_cons] at h
    by_cases hy : y = x
    · simp [hy] at h
    · rw [if_neg hy] at h
      simpa [erase, filter_cons, hy] using ih h

/-- What is in a table after a change was there before, or is the change. -/
theorem mem_set {p : String × α} (h : p ∈ t.set x a) :
    p = (x, a) ∨ p ∈ t := by
  induction t with
  | nil => exact Or.inl (mem_singleton.mp h)
  | cons q t ih =>
    obtain ⟨y, b⟩ := q
    by_cases hy : y = x
    · rw [set, if_pos hy, mem_cons] at h
      exact h.imp_right (mem_cons_of_mem _)
    · rw [set, if_neg hy, mem_cons] at h
      rcases h with rfl | h
      · exact Or.inr mem_cons_self
      · exact (ih h).imp_right (mem_cons_of_mem _)

/-! ## Names -/

theorem contains_eq (t : Table α) (x : String) : t.contains x = (t.find? x).isSome := rfl

theorem mem_names_set (h : y ∈ (t.set x a).names) : y = x ∨ y ∈ t.names := by
  obtain ⟨p, member, rfl⟩ := mem_map.mp h
  rcases mem_set member with rfl | old
  · exact .inl rfl
  · exact .inr (mem_map_of_mem old)

theorem nodup_names_set (distinct : t.names.Nodup) (x : String) (a : α) : (t.set x a).names.Nodup := by
  induction t with
  | nil => simp [set, names]
  | cons p t ih =>
    obtain ⟨y, b⟩ := p
    obtain ⟨new, rest⟩ := nodup_cons.mp distinct
    by_cases h : y = x
    · subst h
      rw [set, if_pos rfl]
      exact distinct
    · rw [set, if_neg h]
      refine nodup_cons.mpr ⟨fun member => ?_, ih rest⟩
      rcases mem_names_set member with same | old
      · exact h same
      · exact new old

theorem nodup_names_erase (distinct : t.names.Nodup) (x : String) : (t.erase x).names.Nodup :=
  (filter_sublist.map Prod.fst).nodup distinct

theorem mem_of_find? (h : t.find? x = some a) : (x, a) ∈ t := by
  induction t with
  | nil => simp at h
  | cons p t ih =>
    obtain ⟨y, b⟩ := p
    rw [find?_cons] at h
    by_cases hy : y = x
    · rw [if_pos hy] at h
      obtain rfl := Option.some.inj h
      simp [hy]
    · rw [if_neg hy] at h
      exact mem_cons_of_mem _ (ih h)

theorem mem_names_of_find? (h : t.find? x = some a) : x ∈ t.names :=
  mem_map_of_mem (mem_of_find? h)

theorem find?_of_mem (distinct : t.names.Nodup) {p : String × α} (h : p ∈ t) : t.find? p.1 = some p.2 := by
  induction t with
  | nil => cases h
  | cons q t ih =>
    obtain ⟨y, b⟩ := q
    obtain ⟨new, rest⟩ := nodup_cons.mp distinct
    rw [find?_cons]
    rcases mem_cons.mp h with rfl | inside
    · rw [if_pos rfl]
    · have named : p.1 ∈ names t := mem_map_of_mem inside
      rw [if_neg, ih rest inside]
      rintro rfl
      exact new named

theorem contains_of_mem {p : String × α} (h : p ∈ t) : t.contains p.1 = true := by
  induction t with
  | nil => cases h
  | cons q t ih =>
    obtain ⟨y, b⟩ := q
    rw [contains_eq, find?_cons]
    split
    · rfl
    · rename_i other
      rcases mem_cons.mp h with rfl | inside
      · exact absurd rfl other
      · exact ih inside

theorem set_ne_nil (t : Table α) (x : String) (a : α) : t.set x a ≠ [] := by
  intro h
  have found := find?_set_self t x a
  rw [h] at found
  cases found

end Table

end LineScript
