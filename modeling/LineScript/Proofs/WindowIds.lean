
import LineScript.Proofs.WindowRegistry
import Mathlib.Data.List.Nodup
import Mathlib.Data.List.Perm.Basic

/-!
# Windows and their ids

A new window gets its id by how many windows are open, so an id can be given again while a window still has it. Then the
table of windows forgets the older window, and closing one of the two makes it forget the other. This does not happen while
windows are closed in the reverse of the order in which they were opened.
-/

namespace LineScript.Window.Desk

open List

variable {d d' : Desk} {e : Event} {w v : String × Nat}

theorem windowId_inj {m n : Nat} (same : windowId m = windowId n) : m = n := by
  have whole : "window_" = "window" ++ "_" := by decide
  rw [windowId, windowId, whole] at same
  exact widgetId_inj same

def IsOpen (d : Desk) (w : String × Nat) : Prop := w ∈ d.opened ∧ w.2 ∉ d.closed

instance (d : Desk) (w : String × Nat) : Decidable (d.IsOpen w) := inferInstanceAs (Decidable (_ ∧ _))

def openWindows (d : Desk) : List (String × Nat) := d.opened.filter fun w => w.2 ∉ d.closed

theorem mem_openWindows : w ∈ d.openWindows ↔ d.IsOpen w := by
  simp [openWindows, IsOpen]

def Identified (d : Desk) : Prop := ∀ w, d.IsOpen w → d.screen.windows.find? w.1 = some w.2

def about (d : Desk) (e : Event) : Option (String × Nat) :=
  match e with
  | .window _ => (d.next e).opened.getLast?
  | .close i => d.opened.find? (·.2 = i)
  | _ => none

/-- An event uses the id of an open window for another one. -/
def Disturbs (d : Desk) (e : Event) : Prop := ∃ w, d.IsOpen w ∧ ∃ v, d.about e = some v ∧ v.1 = w.1 ∧ v.2 ≠ w.2

/-! ## What an event does to the windows -/

/-- What an event does to the windows: it opens one, closes one, or leaves them alone. -/
inductive Turn (d : Desk) (e : Event) (d' : Desk) : Prop
  | opens {v : String × Nat} (about : d.about e = some v)
      (next : v = (windowId d.screen.windows.length, d.screen.objects.length))
      (opened : d'.opened = d.opened ++ [v]) (closed : d'.closed = d.closed)
      (windows : d'.screen.windows = d.screen.windows.set v.1 v.2)
      (objects : d'.screen.objects.length = d.screen.objects.length + 1)
  | closes {v : String × Nat} (event : e = .close v.2) (about : d.about e = some v) (member : v ∈ d.opened)
      (opened : d'.opened = d.opened) (closed : d'.closed = v.2 :: d.closed)
      (windows : d'.screen.windows = d.screen.windows.erase v.1)
      (objects : d.screen.objects.length ≤ d'.screen.objects.length)
  | apart (about : d.about e = none) (opened : d'.opened = d.opened) (closed : d'.closed = d.closed)
      (windows : d'.screen.windows = d.screen.windows) (objects : d.screen.objects.length ≤ d'.screen.objects.length)

theorem turn_next (d : Desk) (e : Event) : d.Turn e (d.next e) := by
  have apart {e : Event} (about : d.about e = none) (opened : (d.next e).opened = d.opened)
      (closed : (d.next e).closed = d.closed) (windows : (d.next e).screen.windows = d.screen.windows)
      (objects : d.screen.objects.length ≤ (d.next e).screen.objects.length) : d.Turn e (d.next e) :=
    .apart about opened closed windows objects
  cases e with
  | window spec =>
    obtain ⟨t, same, registry, objects⟩ := d.next_window spec
    refine .opens (v := (windowId d.screen.windows.length, d.screen.objects.length)) ?_ rfl ?_ ?_ ?_ ?_
    · simp [about, same]
    · rw [same]
    · rw [same]
    · rfl
    · rw [same]
      exact objects
  | widget maker =>
    refine apart rfl rfl rfl ?_ ?_
    · rcases d.next_widget maker with kept | ⟨id, -, ⟨i, registry⟩, -⟩
      · exact congrArg Registry.windows kept.registry
      · exact congrArg Registry.windows registry
    · rcases d.next_widget maker with kept | ⟨id, -, -, objects⟩
      · exact kept.objects
      · exact objects
  | start =>
    refine apart rfl rfl rfl ?_ ?_
    · rcases (always_start d.screen).ends with kept | ⟨-, registry, -⟩
      · exact congrArg Registry.windows kept.registry
      · exact congrArg Registry.windows registry
    · rcases (always_start d.screen).ends with kept | ⟨-, -, objects⟩
      · exact kept.objects
      · exact objects
  | close i =>
    rcases d.find?_opened i with none | ⟨id, found, member⟩
    · rw [next_close_none none]
      exact .apart none rfl rfl rfl (Nat.le_refl _)
    · obtain ⟨t, same, ⟨left, running, -, registry⟩, objects⟩ := next_close found
      rw [same]
      exact .closes rfl found member rfl rfl (congrArg Registry.windows registry) objects
  | jam i times =>
    have kept := d.next_jam i times
    exact apart rfl rfl rfl (congrArg Registry.windows kept.registry) kept.objects

/-! ## What is true at all times -/

/-- Windows have numbers of their own, and the table holds no others than the open windows. -/
structure Ordered (d : Desk) : Prop where
  below : ∀ w ∈ d.opened, w.2 < d.screen.objects.length
  known : ∀ i ∈ d.closed, i < d.screen.objects.length
  distinct : (d.opened.map Prod.snd).Nodup
  names : d.screen.windows.names.Nodup
  tracked : ∀ id i, d.screen.windows.find? id = some i → d.IsOpen (id, i)

theorem Ordered.unclosed (so : d.Ordered) : d.screen.objects.length ∉ d.closed :=
  fun member => Nat.lt_irrefl _ (so.known _ member)

theorem Ordered.turn (so : d.Ordered) (turn : d.Turn e d') : d'.Ordered := by
  cases turn with
  | @opens v _ next opened closed windows objects =>
    have new : ∀ w ∈ d.opened, w.2 ≠ v.2 := by
      intro w member
      have less := so.below w member
      rw [next]
      exact Nat.ne_of_lt less
    have unclosed : v.2 ∉ d.closed := by
      rw [next]
      exact so.unclosed
    refine ⟨?_, ?_, ?_, ?_, ?_⟩
    · intro w member
      rw [opened, mem_append, mem_singleton] at member
      rw [objects]
      rcases member with old | rfl
      · exact Nat.lt_succ_of_lt (so.below w old)
      · rw [next]
        exact Nat.lt_succ_self _
    · intro i member
      rw [closed] at member
      rw [objects]
      exact Nat.lt_succ_of_lt (so.known i member)
    · rw [opened, map_append, nodup_append]
      refine ⟨so.distinct, by simp, ?_⟩
      intro i member j last
      obtain ⟨w, inside, rfl⟩ := mem_map.mp member
      obtain rfl : j = v.2 := by simpa using last
      exact new w inside
    · rw [windows]
      exact Table.nodup_names_set so.names _ _
    · intro id i found
      unfold IsOpen
      rw [opened, closed]
      rw [windows] at found
      by_cases same : v.1 = id
      · rw [← same, Table.find?_set_self] at found
        cases found
        subst same
        exact ⟨by simp, unclosed⟩
      · rw [Table.find?_set_of_ne _ same] at found
        obtain ⟨old, still⟩ := so.tracked id i found
        exact ⟨mem_append_left _ old, still⟩
  | @closes v _ _ member opened closed windows objects =>
    refine ⟨?_, ?_, ?_, ?_, ?_⟩
    · intro w old
      rw [opened] at old
      exact Nat.lt_of_lt_of_le (so.below w old) objects
    · intro i fired
      rw [closed, mem_cons] at fired
      rcases fired with rfl | old
      · exact Nat.lt_of_lt_of_le (so.below v member) objects
      · exact Nat.lt_of_lt_of_le (so.known i old) objects
    · rw [opened]
      exact so.distinct
    · rw [windows]
      exact Table.nodup_names_erase so.names _
    · intro id i found
      rw [windows] at found
      by_cases same : v.1 = id
      · rw [← same, Table.find?_erase_self] at found
        cases found
      · rw [Table.find?_erase_of_ne _ same] at found
        obtain ⟨old, still⟩ := so.tracked id i found
        refine ⟨opened ▸ old, ?_⟩
        rw [closed, mem_cons]
        rintro (number | fired)
        · -- a number is that of one window, and so of one id
          have one : (id, i) = v := inj_on_of_nodup_map so.distinct old member number
          exact same (by rw [← one])
        · exact still fired
  | apart _ opened closed windows objects =>
    refine ⟨fun w old => ?_, fun i old => ?_, opened ▸ so.distinct, windows ▸ so.names, fun id i found => ?_⟩
    · rw [opened] at old
      exact Nat.lt_of_lt_of_le (so.below w old) objects
    · rw [closed] at old
      exact Nat.lt_of_lt_of_le (so.known i old) objects
    · unfold IsOpen
      rw [opened, closed]
      rw [windows] at found
      exact so.tracked id i found

theorem ordered_after (events : List Event) : (after events).Ordered := by
  induction events using List.reverseRecOn with
  | nil => exact ⟨by simp [after], by simp [after], by simp [after], by simp [after, Table.names], by simp [after]⟩
  | append_singleton events e ih =>
    rw [after_concat]
    exact ih.turn (turn_next _ e)

/-- If each open window is known by its id, the table holds the open windows and nothing else. -/
theorem Ordered.perm (so : d.Ordered) (identified : d.Identified) : d.screen.windows.Perm d.openWindows := by
  have table : d.screen.windows.Nodup := so.names.of_map
  have desk : d.openWindows.Nodup := so.distinct.of_map.filter _
  refine (perm_ext_iff_of_nodup table desk).mpr fun w => ?_
  rw [mem_openWindows]
  constructor
  · intro member
    exact so.tracked w.1 w.2 (Table.find?_of_mem so.names member)
  · intro still
    exact Table.mem_of_find? (identified w still)

/-! ## Ids that are given again -/

/-- An open window whose id is not used for another one is still known by it. -/
theorem Identified.turn (so : d.Ordered) (identified : d.Identified) (calm : ¬ d.Disturbs e) (turn : d.Turn e d') :
    d'.Identified := by
  intro w still
  obtain ⟨member, unclosed⟩ := still
  cases turn with
  | @opens v about next opened closed windows objects =>
    rw [opened, mem_append, mem_singleton] at member
    rw [closed] at unclosed
    rw [windows]
    rcases member with old | rfl
    · have number : v.2 ≠ w.2 := by
        rw [next]
        exact Nat.ne_of_gt (so.below w old)
      have other : v.1 ≠ w.1 := fun same => calm ⟨w, ⟨old, unclosed⟩, v, about, same, number⟩
      rw [Table.find?_set_of_ne _ other]
      exact identified w ⟨old, unclosed⟩
    · exact Table.find?_set_self _ _ _
  | @closes v _ about _ opened closed windows objects =>
    rw [opened] at member
    rw [closed, mem_cons, not_or] at unclosed
    obtain ⟨number, before⟩ := unclosed
    have other : v.1 ≠ w.1 := fun same => calm ⟨w, ⟨member, before⟩, v, about, same, number ∘ Eq.symm⟩
    rw [windows, Table.find?_erase_of_ne _ other]
    exact identified w ⟨member, before⟩
  | apart _ opened closed windows objects =>
    rw [opened] at member
    rw [closed] at unclosed
    rw [windows]
    exact identified w ⟨member, unclosed⟩

/-- A window whose id is used for another one is still open, and not known by it any more. -/
theorem Disturbs.not_identified (disturbs : d.Disturbs e) (turn : d.Turn e d') : ¬ d'.Identified := by
  intro identified
  obtain ⟨w, ⟨member, unclosed⟩, v, known, same, number⟩ := disturbs
  cases turn with
  | opens about next opened closed windows objects =>
    cases about.symm.trans known
    have found := identified w ⟨opened ▸ mem_append_left _ member, closed ▸ unclosed⟩
    rw [windows, ← same, Table.find?_set_self] at found
    exact number (Option.some.inj found)
  | closes _ about _ opened closed windows objects =>
    cases about.symm.trans known
    have open' : d'.IsOpen w := by
      refine ⟨opened ▸ member, ?_⟩
      rw [closed, mem_cons, not_or]
      exact ⟨number ∘ Eq.symm, unclosed⟩
    have found := identified w open'
    rw [windows, ← same, Table.find?_erase_self] at found
    cases found
  | apart about => cases about.symm.trans known

/-- At all times, each open window is known by the id that it was given. -/
def IdentifiedThroughout (events : List Event) : Prop :=
  ∀ before later, events = before ++ later → (after before).Identified

theorem identifiedThroughout_iff (events : List Event) :
    IdentifiedThroughout events ↔ ∀ before e later, events = before ++ e :: later → ¬ (after before).Disturbs e := by
  constructor
  · rintro identified before e later rfl disturbs
    have next := identified (before ++ [e]) later (by simp)
    rw [after_concat] at next
    exact disturbs.not_identified (turn_next _ e) next
  · intro calm before
    induction before using List.reverseRecOn with
    | nil =>
      intro later _ w still
      cases still.1
    | append_singleton before e ih =>
      rintro later rfl
      have first := ih (e :: later) (by simp)
      rw [after_concat]
      exact first.turn (ordered_after before) (calm before e later (by simp)) (turn_next _ e)

/-- A new window gets the number of open windows in its id. -/
theorem disturbs_window_iff (so : d.Ordered) (identified : d.Identified) (spec : Gui.WindowSpec) :
    d.Disturbs (.window spec) ↔ ∃ w, d.IsOpen w ∧ w.1 = windowId d.openWindows.length := by
  obtain ⟨t, same, -, -⟩ := d.next_window spec
  have known : d.about (.window spec) = some (windowId d.openWindows.length, d.screen.objects.length) := by
    rw [← (so.perm identified).length_eq]
    simp [about, same]
  constructor
  · rintro ⟨w, still, v, about, same, -⟩
    cases about.symm.trans known
    exact ⟨w, still, same.symm⟩
  · rintro ⟨w, still, same⟩
    exact ⟨w, still, _, known, same.symm, Nat.ne_of_gt (so.below w still.1)⟩

/-! ## Closing the last window first -/

def LastFirst (events : List Event) : Prop :=
  ∀ before i later, events = before ++ .close i :: later → ∃ w, (after before).openWindows.getLast? = some w ∧ w.2 = i

/-- The open windows are numbered from zero on, and known by their ids. -/
structure Stacked (d : Desk) : Prop where
  identified : d.Identified
  ids : d.openWindows.map Prod.fst = (List.range d.openWindows.length).map windowId

theorem openWindows_opens (opened : d'.opened = d.opened ++ [v]) (closed : d'.closed = d.closed) (new : v.2 ∉ d.closed) :
    d'.openWindows = d.openWindows ++ [v] := by
  simp [openWindows, opened, closed, new]

theorem openWindows_closes {front : List (String × Nat)} (so : d.Ordered) (last : d.openWindows = front ++ [v])
    (opened : d'.opened = d.opened) (closed : d'.closed = v.2 :: d.closed) : d'.openWindows = front := by
  have rest : d'.openWindows = d.openWindows.filter fun w => w.2 ≠ v.2 := by
    simp [openWindows, opened, closed]
  have distinct : ((front ++ [v]).map Prod.snd).Nodup := by
    rw [← last]
    exact (filter_sublist.map Prod.snd).nodup so.distinct
  have others : ∀ w ∈ front, w.2 ≠ v.2 := by
    rw [map_append, nodup_append] at distinct
    intro w member
    exact distinct.2.2 w.2 (mem_map_of_mem member) v.2 (by simp)
  rw [rest, last, filter_append, filter_eq_self.mpr (by simpa using others)]
  simp

theorem Stacked.exists_id (stacked : d.Stacked) (still : d.IsOpen w) : ∃ k < d.openWindows.length, w.1 = windowId k := by
  have member : w.1 ∈ d.openWindows.map Prod.fst := mem_map_of_mem (mem_openWindows.mpr still)
  rw [stacked.ids] at member
  obtain ⟨k, less, same⟩ := mem_map.mp member
  exact ⟨k, mem_range.mp less, same.symm⟩

/-- One more window on the stack, or the last one taken off it. -/
theorem Stacked.turn (so : d.Ordered) (stacked : d.Stacked)
    (last : ∀ i, e = .close i → ∃ w, d.openWindows.getLast? = some w ∧ w.2 = i) (turn : d.Turn e d') : d'.Stacked := by
  cases turn with
  | @opens v about next opened closed windows objects =>
    have count : d.screen.windows.length = d.openWindows.length := (so.perm stacked.identified).length_eq
    have id : v.1 = windowId d.openWindows.length := by rw [next, count]
    have unclosed : v.2 ∉ d.closed := by
      rw [next]
      exact so.unclosed
    have calm : ¬ d.Disturbs e := by
      rintro ⟨w, still, v', known, same, -⟩
      cases about.symm.trans known
      obtain ⟨k, less, named⟩ := stacked.exists_id still
      rw [id, named] at same
      exact Nat.ne_of_gt less (windowId_inj same)
    refine ⟨stacked.identified.turn so calm (.opens about next opened closed windows objects), ?_⟩
    rw [openWindows_opens opened closed unclosed]
    simp [stacked.ids, range_succ, id]
  | @closes v event about member opened closed windows objects =>
    obtain ⟨w, final, number⟩ := last v.2 event
    obtain ⟨front, split⟩ := getLast?_eq_some_iff.mp final
    have inside : w ∈ d.opened := (mem_openWindows.mp (split ▸ mem_append_right _ (mem_singleton_self w))).1
    obtain rfl : w = v := inj_on_of_nodup_map so.distinct inside member number
    have ids : front.map Prod.fst = (List.range front.length).map windowId ∧ w.1 = windowId front.length := by
      have all := stacked.ids
      rw [split] at all
      simpa [range_succ] using all
    have calm : ¬ d.Disturbs e := by
      rintro ⟨u, still, v', known, same, other⟩
      cases about.symm.trans known
      have below : u ∈ front := by
        have there := mem_openWindows.mpr still
        rw [split, mem_append, mem_singleton] at there
        exact there.resolve_right fun equal => other (by rw [equal])
      have named : u.1 ∈ front.map Prod.fst := mem_map_of_mem below
      rw [ids.1, ← same, ids.2] at named
      obtain ⟨k, less, equal⟩ := mem_map.mp named
      exact Nat.ne_of_lt (mem_range.mp less) (windowId_inj equal)
    refine ⟨stacked.identified.turn so calm (.closes event about member opened closed windows objects), ?_⟩
    rw [openWindows_closes so split opened closed]
    exact ids.1
  | apart about opened closed windows objects =>
    have calm : ¬ d.Disturbs e := by
      rintro ⟨w, still, v, known, -⟩
      cases about.symm.trans known
    refine ⟨stacked.identified.turn so calm (.apart about opened closed windows objects), ?_⟩
    have same : d'.openWindows = d.openWindows := by rw [openWindows, openWindows, opened, closed]
    rw [same]
    exact stacked.ids

theorem LastFirst.stacked {events : List Event} (lastFirst : LastFirst events) {before later : List Event}
    (part : events = before ++ later) : (after before).Stacked := by
  induction before using List.reverseRecOn generalizing later with
  | nil => exact ⟨fun w still => (by cases still.1), rfl⟩
  | append_singleton before e ih =>
    rw [append_assoc] at part
    rw [after_concat]
    refine (ih part).turn (ordered_after before) ?_ (turn_next _ e)
    rintro i rfl
    exact lastFirst before i later part

/-- **Windows are known by their ids as long as no id is given again.** A new window uses the id of an open one just if an open
window bears the number of open windows; it never does if the last one is always closed first. -/
theorem windows_identified_iff (events : List Event) :
    (IdentifiedThroughout events ↔
        ∀ before e later, events = before ++ e :: later → ¬ (after before).Disturbs e) ∧
      (IdentifiedThroughout events → ∀ spec, (after events).Disturbs (.window spec) ↔
        ∃ w, (after events).IsOpen w ∧ w.1 = windowId (after events).openWindows.length) ∧
      (LastFirst events → IdentifiedThroughout events) := by
  refine ⟨identifiedThroughout_iff events, fun identified spec => ?_, fun lastFirst before later part => ?_⟩
  · exact disturbs_window_iff (ordered_after events) (identified events [] (by simp)) spec
  · exact (lastFirst.stacked part).identified

/-- Two windows are opened, the first one is closed, and a third one is opened. -/
def reopening : List Event := [.window {}, .window {}, .close 0, .window {}]

/-- The second window is open under an id that the third one is given, and is not known by it any more. -/
theorem id_given_again :
    let d := after reopening
    d.opened = [("window_0", 0), ("window_1", 1), ("window_1", 2)] ∧ d.IsOpen ("window_1", 1) ∧
      d.IsOpen ("window_1", 2) ∧ d.screen.windows.find? "window_1" = some 2 ∧ ¬ IdentifiedThroughout reopening := by
  have opened : (after reopening).opened = [("window_0", 0), ("window_1", 1), ("window_1", 2)] := by decide
  have second : (after reopening).IsOpen ("window_1", 1) := by decide
  have third : (after reopening).IsOpen ("window_1", 2) := by decide
  have known : (after reopening).screen.windows.find? "window_1" = some 2 := by decide
  refine ⟨opened, second, third, known, fun identified => ?_⟩
  have found := identified reopening [] (by simp) _ second
  rw [known] at found
  cases found

end LineScript.Window.Desk
