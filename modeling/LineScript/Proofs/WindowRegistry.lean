
import LineScript.Window.Registry
import LineScript.Proofs.Leads
import Mathlib.Data.List.Induction

/-!
# The registry of windows and widgets

What a script can name is held in five fields of the screen. Calls on the widgets themselves leave these alone (`Apart`).
Everything else makes one of four changes to them, or none (`Registry.Change`), and each of the four keeps the registry in
order (`Registry.Sound.change`).
-/

namespace LineScript.Window

open List

variable {t s u : Screen} {id : String} {d : Desk} {r : Registry} {i : Nat}

variable {α β : Type}

structure Registry where
  windows : Table Nat := []
  widgets : Table Nat := []
  current : Option String := none
  counter : Nat := 0
  running : Bool := false

def Screen.registry (s : Screen) : Registry := ⟨s.windows, s.widgets, s.current, s.counter, s.running⟩

def windowId (n : Nat) : String := "window_" ++ toString n

def widgetId (kind : String) (n : Nat) : String := kind ++ "_" ++ toString n

/-- An id ends in its number: what follows the last underscore. -/
theorem widgetId_inj {kind kind' : String} {m n : Nat} (same : widgetId kind m = widgetId kind' n) : m = n := by
  have digits (k : Nat) : ∀ c ∈ (Nat.toDigits 10 k).reverse, (c != '_') := by
    intro c hc
    have underscore := Nat.underscore_not_in_toDigits (n := k)
    simp only [bne_iff_ne]
    rintro rfl
    exact underscore (mem_reverse.mp hc)
  have ending (kind : String) (k : Nat) :
      ((widgetId kind k).toList.reverse.takeWhile (· != '_')) = (Nat.toDigits 10 k).reverse := by
    have text : (widgetId kind k).toList = kind.toList ++ '_' :: Nat.toDigits 10 k := by
      simp [widgetId]
    rw [text, reverse_append, reverse_cons, append_assoc, takeWhile_append_of_pos (digits k)]
    simp
  have tails := ending kind m
  rw [same, ending kind' n, reverse_inj] at tails
  calc
    m = Nat.ofDigitChars 10 (Nat.toDigits 10 m) 0 := Nat.ofDigitChars_ten_toDigits.symm
    _ = Nat.ofDigitChars 10 (Nat.toDigits 10 n) 0 := by rw [tails]
    _ = n := Nat.ofDigitChars_ten_toDigits

/-! ## Calls that leave the registry alone -/

/-- The registry is as it was, and no widget is forgotten. -/
structure Kept (s t : Screen) : Prop where
  registry : t.registry = s.registry
  objects : s.objects.length ≤ t.objects.length

theorem Kept.refl (s : Screen) : Kept s s := ⟨rfl, Nat.le_refl _⟩

theorem Kept.trans (first : Kept s t) (second : Kept t u) : Kept s u :=
  ⟨second.registry.trans first.registry, Nat.le_trans first.objects second.objects⟩

/-- A call has failed for a reason that is not in a value it was given, and has left the registry alone. -/
structure Refused (s : Screen) (f : Fault) (t : Screen) : Prop extends Kept s t where
  cause : f.isValue = false

theorem Refused.after {f : Fault} (kept : Kept s t) (refused : Refused t f u) : Refused s f u :=
  ⟨kept.trans refused.toKept, refused.cause⟩

def Apart (x : Gui α) : Prop := ∀ s, Leads x s (fun _ => Kept s) (Refused s)

namespace Apart

protected theorem pure (a : α) : Apart (pure a) := fun s => .pure (.refl s)

protected theorem throw {f : Fault} (cause : f.isValue = false) : Apart (throw f : Gui α) := fun s => .throw ⟨.refl s, cause⟩

protected theorem get : Apart (get : Gui Screen) := fun s => .get (.refl s)

protected theorem modify {f : Screen → Screen} (h : ∀ s, Kept s (f s)) : Apart (modify f) := fun s => .modify (h s)

protected theorem bind {x : Gui α} {k : α → Gui β} (hx : Apart x) (hk : ∀ a, Apart (k a)) : Apart (x >>= k) := by
  intro s
  refine (hx s).andThen fun a t kept => ?_
  exact (hk a t).mono (fun _ _ => kept.trans) fun _ _ => .after kept

protected theorem guard {c : Prop} [Decidable c] {f : Fault} (cause : f.isValue = false) :
    Apart (if c then throw f else pure ⟨⟩ : Gui PUnit) := by
  split
  · exact .throw cause
  · exact .pure _

protected theorem tryCatch {x : Gui α} {h : Fault → Gui α} (hx : Apart x) (hh : ∀ f, Apart (h f)) :
    Apart (tryCatch x h) := by
  intro s
  refine .tryCatch ((hx s).mono (fun _ _ => id) fun f t refused => ?_)
  exact (hh f t).mono (fun _ _ => refused.trans) fun _ _ => .after refused.toKept

protected theorem note (object method : String) (args : List Arg) (options : List (String × Arg)) :
    Apart (Gui.note object method args options) :=
  .modify fun _ => ⟨rfl, Nat.le_refl _⟩

protected theorem noteCall (i : Nat) (method : String) (args : List Arg) (options : List (String × Arg)) :
    Apart (Gui.noteCall i method args options) :=
  .bind .get fun _ => .note _ _ _ _

protected theorem needAlive (i : Nat) : Apart (Gui.needAlive i) := .bind .get fun _ => .guard rfl

protected theorem change (i : Nat) (f : Object → Object) : Apart (Gui.change i f) :=
  .modify fun s => ⟨rfl, by simp [Screen.setObject]⟩

protected theorem newWidget (cls : Class) (parent : Nat) (options : List (String × Arg)) :
    Apart (Gui.newWidget cls parent options) := by
  intro s
  refine .bind (.get (.bind (.set (.bind (.get ?_)))))
  have more : Kept s { s with objects := s.objects ++ [{ cls, window := parent, options }] } := ⟨rfl, by simp⟩
  refine .bind ((Apart.noteCall _ _ _ _ _).mono (fun _ t kept => ?_) fun _ _ => .after more)
  exact .pure (more.trans kept)

protected theorem place (i : Nat) (options : List (String × Arg)) : Apart (Gui.place i options) :=
  .bind (.needAlive i) fun _ => .noteCall _ _ _ _

protected theorem config (i : Nat) (options : List (String × Arg)) : Apart (Gui.config i options) :=
  .bind (.needAlive i) fun _ => .bind (.noteCall _ _ _ _) fun _ => .change _ _

protected theorem insert (i : Nat) (text : String) : Apart (Gui.insert i text) :=
  .bind (.needAlive i) fun _ => .bind (.noteCall _ _ _ _) fun _ => .change _ _

protected theorem destroy (i : Nat) : Apart (Gui.destroy i) := by
  refine .bind (.noteCall _ _ _ _) fun _ => .bind .get fun s => ?_
  dsimp only
  split
  · exact .bind (.change _ _) fun _ => .bind (.throw rfl) fun _ => .change _ _
  · exact .change _ _

protected theorem update (i : Nat) : Apart (Gui.update i) :=
  .bind (.noteCall _ _ _ _) fun _ => .bind (.change _ _) fun _ => .bind .get fun _ => .guard rfl

protected theorem currentWindow : Apart Gui.currentWindow := by
  refine .bind .get fun s => ?_
  split
  · exact .pure _
  · exact .throw rfl

protected theorem runWindows (rounds : Nat) (windows : List Nat) : Apart (Gui.runWindows rounds windows) := by
  have all : Apart (windows.forM Gui.update) := by
    induction windows with
    | nil => exact .pure _
    | cons i windows ih => exact .bind (.update i) fun _ => ih
  induction rounds with
  | zero => exact .pure _
  | succ rounds ih => exact .bind all fun _ => ih

end Apart

/-! ## Changes -/

def Registry.withWindow (r : Registry) (i : Nat) : Registry :=
  let id := windowId r.windows.length
  { r with windows := r.windows.set id i, current := some id }

def Registry.withWidget (r : Registry) (kind : String) (i : Nat) : Registry :=
  { r with widgets := r.widgets.set (widgetId kind r.counter) i, counter := r.counter + 1 }

/-- The registry without a window, and with the widgets that are left. Another window becomes the current one if need be. -/
def Registry.without (r : Registry) (id : String) (left : String × Nat → Bool) (running : Bool) : Registry where
  windows := r.windows.erase id
  widgets := r.widgets.filter left
  current := if r.current = some id then (r.windows.erase id).head?.map Prod.fst else r.current
  counter := r.counter
  running

/-- What the calls do to the registry. -/
inductive Registry.Change (r : Registry) : Registry → Prop
  /-- A window is opened. -/
  | window (i : Nat) : Change r (r.withWindow i)
  /-- A widget is made. -/
  | widget (kind : String) (i : Nat) : Change r (r.withWidget kind i)
  /-- A window is closed. -/
  | close (id : String) (left : String × Nat → Bool) (running : Bool)
      (rest : running = true → r.windows.erase id ≠ []) : Change r (r.without id left running)
  /-- The windows are brought up to date from now on. -/
  | start (some : r.windows ≠ []) : Change r { r with running := true }

/-- What is true of the registry of a script at all times. -/
structure Registry.Sound (r : Registry) : Prop where
  current : r.current = none ↔ r.windows = []
  known : ∀ id, r.current = some id → r.windows.contains id = true
  running : r.running = true → r.windows ≠ []
  numbered : ∀ id ∈ r.widgets.names, ∃ kind n, id = widgetId kind n ∧ n < r.counter

theorem Registry.sound_fresh : Sound {} where
  current := by simp
  known := by simp
  running := by simp
  numbered := by simp [Table.names]

theorem Registry.Sound.find?_widgetId (sound : r.Sound) (kind : String) :
    r.widgets.find? (widgetId kind r.counter) = none := by
  cases found : r.widgets.find? (widgetId kind r.counter) with
  | none => rfl
  | some i =>
    have member : widgetId kind r.counter ∈ r.widgets.names := Table.mem_names_of_find? found
    obtain ⟨kind', n, same, less⟩ := sound.numbered _ member
    have equal := widgetId_inj same
    omega

theorem Registry.Sound.change {r' : Registry} (sound : r.Sound) (change : Change r r') : r'.Sound := by
  cases change with
  | window i =>
    have filled : r.windows.set (windowId r.windows.length) i ≠ [] := Table.set_ne_nil _ _ _
    refine ⟨⟨nofun, fun none => absurd none filled⟩, ?_, fun _ => filled, sound.numbered⟩
    intro id same
    cases same
    change ((r.windows.set _ i).find? _).isSome
    simp
  | widget kind i =>
    refine ⟨sound.current, sound.known, sound.running, ?_⟩
    intro id member
    rcases Table.mem_names_set member with rfl | old
    · exact ⟨kind, r.counter, rfl, Nat.lt_succ_self _⟩
    · obtain ⟨kind', n, same, less⟩ := sound.numbered id old
      exact ⟨kind', n, same, Nat.lt_succ_of_lt less⟩
  | close id left running rest =>
    have widgets : ∀ x ∈ Table.names (r.widgets.filter left), x ∈ r.widgets.names := by
      intro x member
      obtain ⟨p, inside, rfl⟩ := mem_map.mp member
      exact mem_map_of_mem (mem_filter.mp inside).1
    refine ⟨?_, ?_, rest, fun x member => sound.numbered x (widgets x member)⟩
    · -- the current window is closed, or it is another one and stays
      dsimp only [Registry.without]
      split
      · cases r.windows.erase id <;> simp
      · rename_i other
        rw [sound.current]
        constructor
        · intro none
          simp [none, Table.erase]
        · intro emptied
          by_contra some
          obtain ⟨x, named⟩ := Option.ne_none_iff_exists'.mp (mt sound.current.mp some)
          have kept : (r.windows.erase id).find? x = r.windows.find? x :=
            Table.find?_erase_of_ne _ fun same => other (by rw [named, same])
          have there := sound.known x named
          rw [Table.contains_eq, ← kept, emptied] at there
          cases there
    · intro x named
      dsimp only [Registry.without] at named ⊢
      split at named
      · obtain ⟨p, first, rfl⟩ := Option.map_eq_some_iff.mp named
        exact Table.contains_of_mem (mem_of_mem_head? first)
      · rename_i other
        rw [Table.contains_eq, Table.find?_erase_of_ne _ fun same => other (by rw [named, same])]
        exact sound.known x named
  | start some => exact ⟨sound.current, sound.known, fun _ => some, sound.numbered⟩

/-! ## Widgets -/

structure Added (kind : String) (s : Screen) (id : String) (t : Screen) : Prop where
  next : id = widgetId kind s.counter
  registry : ∃ i, t.registry = s.registry.withWidget kind i
  objects : s.objects.length ≤ t.objects.length

theorem Added.after {kind : String} (kept : Kept s t) (added : Added kind t id u) : Added kind s id u := by
  have counter : t.counter = s.counter := congrArg Registry.counter kept.registry
  refine ⟨counter ▸ added.next, ?_, Nat.le_trans kept.objects added.objects⟩
  rw [← kept.registry]
  exact added.registry

def Adds (kind : String) (x : Gui String) : Prop := ∀ s, Leads x s (Added kind s) (Refused s)

namespace Adds

variable {kind : String}

protected theorem bind {x : Gui α} {k : α → Gui String} (hx : Apart x) (hk : ∀ a, Adds kind (k a)) :
    Adds kind (x >>= k) := by
  intro s
  refine (hx s).andThen fun a t kept => ?_
  exact (hk a t).mono (fun _ _ => Added.after kept) fun _ _ => Refused.after kept

protected theorem register (i : Nat) : Adds kind (Gui.register kind i) := by
  intro s
  refine .bind (.get (.bind (.set (.pure ⟨rfl, ⟨i, rfl⟩, Nat.le_refl _⟩))))

/-- A failure is told in words that have to do with no value. -/
protected theorem reworded {x : Gui String} {words : Fault → Runtime}
    (hx : ∀ s, Leads x s (Added kind s) fun _ => Kept s) : Adds kind (tryCatch x fun f => throw (.runtime (words f))) :=
  fun s => .tryCatch ((hx s).mono (fun _ _ => id) fun _ _ kept => .throw ⟨kept, rfl⟩)

end Adds

/-- What widgets a script can make. -/
inductive Maker where
  | button (text : String) (box : Gui.Box) (action : Option String)
  | label (text : String) (box : Gui.Box)
  | entry (box : Gui.Box) (placeholder : String)
  | image (path : String) (x y : Int) (width height : Option Int) (missing : Option Fault)

def Maker.kind : Maker → String
  | .button .. => "button"
  | .label .. => "label"
  | .entry .. => "entry"
  | .image .. => "image"

def Maker.run : Maker → Gui String
  | .button text box action => Gui.createButton text box action
  | .label text box => Gui.createLabel text box
  | .entry box placeholder => Gui.createEntry box placeholder
  | .image path x y width height missing => Gui.createImage path x y width height missing

theorem Maker.adds (m : Maker) : Adds m.kind m.run := by
  cases m with
  | button text box action =>
    refine .bind .currentWindow fun w => .bind (.newWidget _ _ _) fun i => .bind (.place _ _) fun _ => ?_
    split
    · exact .bind (.config _ _) fun _ => .bind (.change _ _) fun _ => .register i
    · exact .register i
  | label text box =>
    exact .bind .currentWindow fun w => .bind (.newWidget _ _ _) fun i => .bind (.place _ _) fun _ => .register i
  | entry box placeholder =>
    refine .bind .currentWindow fun w => .bind (.newWidget _ _ _) fun i => .bind (.place _ _) fun _ => ?_
    split
    · refine .bind (.insert _ _) fun _ => .bind (.config _ _) fun _ => .bind (.change _ _) fun _ => ?_
      exact .bind (.noteCall _ _ _ _) fun _ => .bind (.noteCall _ _ _ _) fun _ => .register i
    · exact .register i
  | image path x y width height missing =>
    have made (w : Nat) : Adds "image" (do
        let i ← Gui.newWidget .label w [("image", .text "<photo>")]
        Gui.place i [("x", .number x), ("y", .number y)]
        Gui.register "image" i) :=
      .bind (.newWidget _ _ _) fun i => .bind (.place _ _) fun _ => .register i
    refine .bind .currentWindow fun w => .reworded ?_
    cases missing with
    | some f => exact fun s => .bind (.throw (.refl s))
    | none =>
      refine fun s => .mono (Adds.bind (.note _ _ _ _) (fun _ => ?_) s) (fun _ _ => id) fun _ _ => Refused.toKept
      split
      · split
        · exact .bind (.note _ _ _ _) fun _ => made w
        · exact made w
      · exact made w

/-! ## Windows -/

/-- A window is opened under the next id, with a number that no widget has. -/
theorem exists_run_createWindow (spec : Gui.WindowSpec) (s : Screen) :
    ∃ t, (Gui.createWindow spec).run.run s = (.ok (windowId s.windows.length), t) ∧
      t.registry = s.registry.withWindow s.objects.length ∧ t.objects.length = s.objects.length + 1 :=
  ⟨_, rfl, rfl, by simp⟩

/-- A window has been closed. -/
structure Closed (id : String) (s t : Screen) : Prop where
  registry : ∃ left running, (running = true → s.windows.erase id ≠ []) ∧ t.registry = s.registry.without id left running
  objects : s.objects.length ≤ t.objects.length

theorem Closed.kept (closed : Closed id s t) (kept : Kept t u) : Closed id s u := by
  obtain ⟨left, running, rest, same⟩ := closed.registry
  exact ⟨⟨left, running, rest, kept.registry.trans same⟩, Nat.le_trans closed.objects kept.objects⟩

/-- The steps in which a window is forgotten, one after the other. -/
theorem closed_of_forgotten (id : String) (s : Screen) (left : String × Nat → Bool) :
    let forgotten := { s with windows := s.windows.erase id, widgets := s.widgets.filter left }
    let refocused :=
      if forgotten.current = some id then { forgotten with current := forgotten.windows.head?.map Prod.fst } else forgotten
    Closed id s (if refocused.windows.isEmpty then { refocused with running := false } else refocused) := by
  intro forgotten refocused
  have windows : refocused.windows = s.windows.erase id := by
    dsimp only [refocused]
    split <;> rfl
  have registry : refocused.registry = s.registry.without id left s.running := by
    dsimp only [refocused, Registry.without, Screen.registry]
    split <;> rfl
  have objects : refocused.objects = s.objects := by
    dsimp only [refocused]
    split <;> rfl
  split
  · refine ⟨⟨left, false, nofun, ?_⟩, by simp [objects]⟩
    exact congrArg (fun r : Registry => { r with running := false }) registry
  · rename_i more
    rw [windows] at more
    exact ⟨⟨left, s.running, fun _ none => more (by simp [none]), registry⟩, by simp [objects]⟩

theorem Closed.halted (closed : Closed id s t) : Closed id s { t with running := false } := by
  obtain ⟨left, running, -, same⟩ := closed.registry
  refine ⟨⟨left, false, nofun, ?_⟩, closed.objects⟩
  exact congrArg (fun r : Registry => { r with running := false }) same

/-- Closing a window forgets it in every case, also if the window does not go. -/
theorem always_closeWindow (id : String) (i : Nat) (s : Screen) : Always (Gui.closeWindow id i) s (Closed id s) := by
  have destroyed {t : Screen} (closed : Closed id s t) : Always (Gui.destroy i) t (Closed id s) :=
    (Apart.destroy i t).mono (fun _ _ => closed.kept) fun _ _ refused => closed.kept refused.toKept
  refine .tryCatch (.bind (.modify (.bind (.get (.bind (.set (.bind (.modify (.bind (.modify ?_))))))))))
  refine .bind ((destroyed (closed_of_forgotten id s _)).mono (fun _ t closed => .pure closed) fun _ t closed => ?_)
  -- it does not go: the windows are not kept up to date any more, and it is tried once more
  refine .bind (.modify (.bind (.tryCatch ((destroyed closed.halted).mono (fun _ t closed => .pure closed) ?_))))
  exact fun _ t closed => .pure (.pure closed)

theorem always_start (s : Screen) :
    Always Gui.start s fun t => Kept s t ∨
      s.windows ≠ [] ∧ t.registry = { s.registry with running := true } ∧ s.objects.length ≤ t.objects.length := by
  refine .bind (.get ?_)
  split
  · rename_i some
    have windows : s.windows ≠ [] := by
      intro none
      simp [none] at some
    refine .bind (.set ?_)
    refine ((Apart.runWindows _ _).tryCatch (fun _ => .pure _) _).mono (fun _ t kept => ?_) fun _ t kept => ?_
    all_goals exact .inr ⟨windows, kept.registry, kept.objects⟩
  · exact .pure (.inl (.refl s))

/-! ## Events -/

/-- What happens to the windows of a script. -/
inductive Event where
  /-- The script opens a window. -/
  | window (spec : Gui.WindowSpec)
  /-- The script makes a widget. -/
  | widget (maker : Maker)
  /-- The script has its windows kept up to date. -/
  | start
  /-- The handler of a window fires that is called when the user closes it. -/
  | close (i : Nat)
  /-- A window will not go the next times it is told to. -/
  | jam (i times : Nat)

structure Desk where
  screen : Screen := {}
  /-- All windows so far: the id that each was given, and its number. -/
  opened : List (String × Nat) := []
  /-- Numbers of the windows whose handler has fired. -/
  closed : List Nat := []

/-- The desk after an event. A handler belongs to a window that has been opened, and knows its id. -/
def Desk.next (d : Desk) : Event → Desk
  | .window spec =>
    match (Gui.createWindow spec).run.run d.screen with
    | (.ok id, screen) => { d with screen, opened := d.opened ++ [(id, d.screen.objects.length)] }
    | (.error _, screen) => { d with screen }
  | .widget maker => { d with screen := (maker.run.run.run d.screen).2 }
  | .start => { d with screen := (Gui.start.run.run d.screen).2 }
  | .close i =>
    match d.opened.find? (·.2 = i) with
    | some (id, _) => { d with screen := ((Gui.closeWindow id i).run.run d.screen).2, closed := i :: d.closed }
    | none => d
  | .jam i times => { d with screen := ((Gui.change i fun o => { o with jammed := times }).run.run d.screen).2 }

def Desk.after (events : List Event) : Desk := events.foldl Desk.next {}

theorem Desk.after_concat (events : List Event) (e : Event) : after (events ++ [e]) = (after events).next e := by
  simp [after]

theorem Desk.next_window (d : Desk) (spec : Gui.WindowSpec) :
    ∃ t, d.next (.window spec) =
        { d with screen := t, opened := d.opened ++ [(windowId d.screen.windows.length, d.screen.objects.length)] } ∧
      t.registry = d.screen.registry.withWindow d.screen.objects.length ∧
      t.objects.length = d.screen.objects.length + 1 := by
  obtain ⟨t, ran, registry, objects⟩ := exists_run_createWindow spec d.screen
  refine ⟨t, ?_, registry, objects⟩
  rw [next, ran]

theorem Desk.next_widget (d : Desk) (maker : Maker) :
    Kept d.screen (d.next (.widget maker)).screen ∨ ∃ id, Added maker.kind d.screen id (d.next (.widget maker)).screen := by
  have ends := maker.adds d.screen
  cases ran : (maker.run.run.run d.screen).1 with
  | ok id => exact .inr ⟨id, ends.1 id ran⟩
  | error f => exact .inl (ends.2 f ran).toKept

theorem Desk.next_jam (d : Desk) (i times : Nat) : Kept d.screen (d.next (.jam i times)).screen :=
  ((Apart.change i (fun o => { o with jammed := times }) d.screen).mono (fun _ _ => id) fun _ _ => Refused.toKept).ends

theorem Desk.next_close (found : d.opened.find? (·.2 = i) = some (id, i)) :
    ∃ t, d.next (.close i) = { d with screen := t, closed := i :: d.closed } ∧ Closed id d.screen t := by
  refine ⟨((Gui.closeWindow id i).run.run d.screen).2, ?_, (always_closeWindow id i d.screen).ends⟩
  rw [next, found]

theorem Desk.next_close_none (none : d.opened.find? (·.2 = i) = none) : d.next (.close i) = d := by
  rw [next, none]

/-- A handler is that of one window that has been opened. -/
theorem Desk.find?_opened (d : Desk) (i : Nat) :
    d.opened.find? (·.2 = i) = none ∨ ∃ id, d.opened.find? (·.2 = i) = some (id, i) ∧ (id, i) ∈ d.opened := by
  cases found : d.opened.find? (·.2 = i) with
  | none => exact .inl rfl
  | some w =>
    obtain ⟨id, j⟩ := w
    have number : j = i := by simpa using find?_some found
    subst number
    exact .inr ⟨id, rfl, mem_of_find?_eq_some found⟩

/-- An event makes one change to the registry, or none. -/
theorem Desk.change_next (d : Desk) (e : Event) :
    (d.next e).screen.registry = d.screen.registry ∨ d.screen.registry.Change (d.next e).screen.registry := by
  cases e with
  | window spec =>
    exact .inr (.window _)
  | widget maker =>
    rcases d.next_widget maker with kept | ⟨id, rfl, ⟨i, registry⟩, -⟩
    · exact .inl kept.registry
    · rw [registry]
      exact .inr (.widget _ _)
  | start =>
    rcases (always_start d.screen).ends with kept | ⟨some, registry, -⟩
    · exact .inl kept.registry
    · exact .inr (registry ▸ .start some)
  | close i =>
    rcases d.find?_opened i with none | ⟨id, found, -⟩
    · rw [next_close_none none]
      exact .inl rfl
    · obtain ⟨t, same, ⟨left, running, rest, registry⟩, -⟩ := next_close found
      rw [same, registry]
      exact .inr (.close id left running rest)
  | jam i times => exact .inl (d.next_jam i times).registry

theorem Desk.sound_after (events : List Event) : (after events).screen.registry.Sound := by
  induction events using List.reverseRecOn with
  | nil => exact Registry.sound_fresh
  | append_singleton events e ih =>
    rw [after_concat]
    rcases (after events).change_next e with same | change
    · rw [same]
      exact ih
    · exact ih.change change

/-- **The registry is in order after any events.** There is a current window just if there are windows, and a widget that is made
gets a new id, while the others keep theirs. -/
theorem registry_sound (events : List Event) :
    let s := (Desk.after events).screen
    (s.current = none ↔ s.windows = []) ∧
      (∀ id, s.current = some id → s.windows.contains id = true) ∧
      (s.running = true → s.windows ≠ []) ∧
      (∀ id ∈ s.widgets.names, ∃ kind n, id = kind ++ "_" ++ toString n ∧ n < s.counter) ∧
      ∀ maker : Maker,
        (∀ id, (maker.run.run.run s).1 = .ok id → s.widgets.contains id = false ∧
          ∃ i, (maker.run.run.run s).2.widgets = s.widgets ++ [(id, i)]) ∧
        ∀ f, (maker.run.run.run s).1 = .error f → (maker.run.run.run s).2.widgets = s.widgets := by
  intro s
  have sound : s.registry.Sound := Desk.sound_after events
  refine ⟨sound.current, sound.known, sound.running, sound.numbered, fun maker => ⟨fun id made => ?_, fun f failed => ?_⟩⟩
  · obtain ⟨rfl, ⟨i, registry⟩, -⟩ := (maker.adds s).1 id made
    have new : s.widgets.find? (widgetId maker.kind s.counter) = none := sound.find?_widgetId maker.kind
    refine ⟨by rw [Table.contains_eq, new]; rfl, i, ?_⟩
    rw [← Table.set_of_find?_eq_none new]
    exact congrArg Registry.widgets registry
  · exact congrArg Registry.widgets ((maker.adds s).2 f failed).registry

end LineScript.Window
