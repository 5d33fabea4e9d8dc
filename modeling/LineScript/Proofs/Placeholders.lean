
import LineScript.Window.Registry
import LineScript.Proofs.Leads
import Mathlib.Data.List.Induction

/-!
# Fields and their placeholders

A field shows its placeholder in grey, and what is grey counts as no text. The colour is set when the field is made, when the
user comes and goes, and when the script sets the text, but not when the user types. So a field that the user is in turns
grey in one way: the script puts the placeholder there (`grey_tells_placeholder_iff`).
-/

namespace LineScript.Window

open List

variable {s t : Screen} {i : Nat} {w : Table Nat} {p : Option String}

/-! ## Single fields -/

theorem Screen.object_setObject (known : i < s.objects.length) (o : Object) (j : Nat) :
    (s.setObject i o).object j = if i = j then o else s.object j := by
  unfold Screen.object Screen.setObject
  by_cases same : i = j
  · subst same
    simp [known]
  · simp [same]

def Screen.Live (s : Screen) (i : Nat) : Prop :=
  (s.object i).gone = false ∧ (s.object (s.object i).window).gone = false

def Object.colour (o : Object) : String :=
  match o.options.find? "fg" with
  | some (.text c) => c
  | some (.number n) => toString n
  | _ => "black"

def Object.isGrey (o : Object) : Bool := o.colour = "grey"

structure Look where
  content : String
  grey : Bool

/-- A field that can be used, and its look. -/
structure Field (i : Nat) (p : Option String) (w : Table Nat) (l : Look) (s : Screen) : Prop where
  entry : (s.object i).cls = .entry
  live : s.Live i
  placeholder : (s.object i).placeholder = p
  content : (s.object i).content = l.content
  grey : (s.object i).isGrey = l.grey
  widgets : s.widgets = w

variable {l l' : Look} {stop : Fault → Screen → Prop}

theorem leads_needAlive (i : Nat) : Leads (Gui.needAlive i) s (fun _ t => t = s ∧ s.Live i) fun _ _ => ¬ s.Live i := by
  refine .bind (.get ?_)
  dsimp only
  split
  · rename_i dead
    refine .throw fun live => ?_
    rw [live.1, live.2] at dead
    cases dead
  · rename_i live
    rw [Bool.or_eq_true, not_or, Bool.not_eq_true, Bool.not_eq_true] at live
    exact .pure ⟨rfl, live⟩

theorem Screen.Live.leads (live : s.Live i) {post : Unit → Screen → Prop} (h : post () s) :
    Leads (Gui.needAlive i) s post stop :=
  (leads_needAlive i).mono (fun _ _ same => same.1 ▸ h) fun _ _ dead => absurd live dead

namespace Field

variable (field : Field i p w l s)

include field

theorem known : i < s.objects.length := by
  refine Classical.byContradiction fun beyond => ?_
  have none : s.object i = blank := by simp [Screen.object, getElem?_eq_none (Nat.not_lt.mp beyond)]
  have entry := field.entry
  rw [none] at entry
  cases entry

theorem edited {o : Object} {p' : Option String}
    (fixed : o.cls = (s.object i).cls ∧ o.window = (s.object i).window ∧ o.gone = (s.object i).gone)
    (placeholder : o.placeholder = p') (content : o.content = l'.content) (grey : o.isGrey = l'.grey) :
    Field i p' w l' (s.setObject i o) := by
  have here : (s.setObject i o).object i = o := by rw [Screen.object_setObject field.known, if_pos rfl]
  have stays : ∀ j, ((s.setObject i o).object j).gone = (s.object j).gone := by
    intro j
    rw [Screen.object_setObject field.known]
    split
    · rename_i same
      exact same ▸ fixed.2.2
    · rfl
  constructor
  case live => exact ⟨(stays i).trans field.live.1, by rw [here, stays, fixed.2.1, field.live.2]⟩
  case widgets => exact field.widgets
  all_goals rw [here]
  case entry => exact fixed.1.trans field.entry
  case placeholder => exact placeholder
  case content => exact content
  case grey => exact grey

theorem leads_noteCall (method : String) (args : List Arg) (options : List (String × Arg)) :
    Leads (Gui.noteCall i method args options) s (fun _ => Field i p w l) stop :=
  .bind (.get (.modify ⟨field.entry, field.live, field.placeholder, field.content, field.grey, field.widgets⟩))

theorem leads_insert (text : String) :
    Leads (Gui.insert i text) s (fun _ => Field i p w { l with content := text ++ l.content }) stop := by
  refine .bind (field.live.leads ((field.leads_noteCall _ _ _).andThen fun _ t field => .modify ?_))
  exact field.edited ⟨rfl, rfl, rfl⟩ field.placeholder (congrArg (text ++ ·) field.content) field.grey

theorem leads_delete :
    Leads (Gui.delete i) s (fun _ => Field i p w { l with content := "" }) stop := by
  refine .bind (field.live.leads ((field.leads_noteCall _ _ _).andThen fun _ t field => .modify ?_))
  exact field.edited ⟨rfl, rfl, rfl⟩ field.placeholder rfl field.grey

theorem leads_paint (colour : String) :
    Leads (Gui.config i [("fg", .text colour)]) s (fun _ => Field i p w { l with grey := colour = "grey" }) stop := by
  refine .bind (field.live.leads ((field.leads_noteCall _ _ _).andThen fun _ t field => .modify ?_))
  refine field.edited ⟨rfl, rfl, rfl⟩ field.placeholder field.content ?_
  simp [Object.isGrey, Object.colour]

theorem leads_getContent {post : String → Screen → Prop} (h : post l.content s) :
    Leads (Gui.getContent i) s post stop := by
  refine .bind (.get ?_)
  rw [if_neg (by rw [field.entry]; decide), field.content]
  exact .bind (field.live.leads (.pure h))

theorem leads_colour {post : String → Screen → Prop} (h : post (s.object i).colour s) :
    Leads (Gui.cget i "fg") s post stop := by
  refine .bind (field.live.leads (.bind (.get ?_)))
  dsimp only
  rw [field.entry]
  unfold Object.colour at h
  revert h
  rcases (s.object i).options.find? "fg" with _ | _ | _ | _ | _ | _
  all_goals exact .pure

/-- What is grey is no text. -/
theorem run_getValue {id : String} (named : w.find? id = some i) :
    (Gui.getValue id).run.run s = (.ok (if l.grey then "" else l.content), s) := by
  have grey : ((s.object i).colour = "grey") = (l.grey = true) := by rw [← field.grey, Object.isGrey, decide_eq_true_eq]
  have leads : Leads (Gui.getValue id) s (fun v t => v = (if l.grey then "" else l.content) ∧ t = s) fun _ _ => False := by
    refine .bind (.get ?_)
    rw [field.widgets, named]
    refine .tryCatch (.bind (.get ?_))
    rw [field.entry]
    refine .bind (field.leads_getContent (.bind (field.leads_colour (.pure ⟨?_, rfl⟩))))
    simp only [grey]
  obtain ⟨_, _, ran, rfl, rfl⟩ := leads.exists_run
  exact ran

end Field

/-! ## Fields that are made -/

theorem leads_newWidget (cls : Class) (parent : Nat) (options : List (String × Arg)) :
    Leads (Gui.newWidget cls parent options) s
      (fun i t => t.object i = { cls, window := parent, options } ∧ t.widgets = s.widgets) stop := by
  refine .bind (.get (.bind (.set (.bind (.get (.bind (.bind (.get (.modify (.pure ⟨?_, rfl⟩))))))))))
  simp [Screen.object]

/-- A field that is made shows its placeholder in grey, if it has one. -/
theorem leads_createEntry (box : Gui.Box) (text : String) : Leads (Gui.createEntry box text) s
      (fun id t => ∃ i, t.widgets.find? id = some i ∧
        Field i (if text.isEmpty then none else some text) t.widgets ⟨text, !text.isEmpty⟩ t) fun _ _ => True := by
  have registered : ∀ {i p w l} {t : Screen}, Field i p w l t → Leads (Gui.register "entry" i) t
      (fun id u => ∃ j, u.widgets.find? id = some j ∧ Field j p u.widgets l u) fun _ _ => True := fun field =>
    .bind (.get (.bind (.set (.pure ⟨_, Table.find?_set_self _ _ _, field.entry, field.live, field.placeholder,
      field.content, field.grey, rfl⟩))))
  have place : Leads Gui.currentWindow s (fun _ _ => True) fun _ _ => True := ⟨fun _ _ => trivial, fun _ _ => trivial⟩
  refine place.andThen fun parent t _ => (leads_newWidget _ _ _).andThen fun i t new => ?_
  refine .bind (.bind ((leads_needAlive i).mono (fun _ u live => ?_) fun _ _ _ => trivial))
  have fresh : Field i none u.widgets ⟨"", false⟩ u := by constructor <;> simp [new.1, live, Object.isGrey, Object.colour]
  refine (fresh.leads_noteCall _ _ _).imp fun _ t fresh => ?_
  cases empty : text.isEmpty with
  | true =>
    obtain rfl : text = "" := by simpa using empty
    exact registered fresh
  | false =>
    refine (fresh.leads_insert text).andThen fun _ t filled => ?_
    refine (filled.leads_paint "grey").andThen fun _ t grey => .bind (.modify ?_)
    have made : Field i (some text) u.widgets ⟨text, true⟩ (t.setObject i { t.object i with placeholder := some text }) :=
      grey.edited ⟨rfl, rfl, rfl⟩ rfl (by simp [grey.content]) grey.grey
    refine (made.leads_noteCall _ _ _).andThen fun _ t bound => ?_
    exact (bound.leads_noteCall _ _ _).andThen fun _ t bound => registered bound

/-! ## Events -/

/-- What happens to a field. -/
inductive FieldEvent where
  /-- The user goes to the field. -/
  | focusIn
  /-- The user leaves it. -/
  | focusOut
  /-- The user types into it. -/
  | type (text : String)
  /-- The script sets its text, and calls it by a name. -/
  | setText (name text : String)

namespace FieldEvent

def run (i : Nat) : FieldEvent → Gui Unit
  | focusIn => Gui.focusIn i
  | focusOut => Gui.focusOut i
  | type text => Gui.type i text
  | setText name text => Gui.setText name text

def inside (before : Bool) : FieldEvent → Bool
  | focusIn => true
  | focusOut => false
  | _ => before

/-- The user comes before leaving, and types only in between. -/
def Possible (inside : Bool) : FieldEvent → Prop
  | focusIn => inside = false
  | focusOut | type _ => inside = true
  | setText _ _ => True

end FieldEvent

def Orderly (events : List FieldEvent) : Prop :=
  ∀ before e, before ++ [e] <+: events → e.Possible (before.foldl FieldEvent.inside false)

def Look.next (p : String) (l : Look) : FieldEvent → Look
  | .focusIn => if l.content = p then ⟨"", false⟩ else l
  | .focusOut => if l.content.isEmpty then ⟨p, true⟩ else l
  | .type text => { l with content := text }
  | .setText _ text => ⟨text, text = p⟩

def Look.after (p : String) (events : List FieldEvent) : Look := events.foldl (Look.next p) ⟨p, true⟩

theorem run_get_bind {α : Type} (k : Screen → Gui α) (s : Screen) : (get >>= k).run.run s = (k s).run.run s := rfl

theorem run_findWidget (same : t.widgets = s.widgets) (name : String) :
    (Gui.findWidget name).run.run t = (((Gui.findWidget name).run.run s).1, t) := by
  unfold Gui.findWidget
  rw [run_get_bind, run_get_bind, same]
  cases s.widgets.find? name with
  | some i => rfl
  | none =>
    dsimp only
    split <;> rfl

/-- The field is what every name leads to by which the script calls it. -/
def Called (i : Nat) (s : Screen) (events : List FieldEvent) : Prop :=
  ∀ name text, .setText name text ∈ events → (Gui.findWidget name).run.run s = (.ok i, s)

section

variable {p : String} {events : List FieldEvent}

/-- What an event does to a field is what it does to its look. -/
theorem Field.leads_event {e : FieldEvent} (field : Field i (some p) t.widgets l s) (called : Called i t [e]) :
    Leads (e.run i) s (fun _ => Field i (some p) t.widgets (l.next p e)) fun _ _ => False := by
  cases e with
  | focusIn =>
    refine .bind (field.leads_getContent (.bind (.get ?_)))
    rw [field.placeholder]
    dsimp only [Look.next]
    split
    · rename_i same
      rw [if_pos (Option.some.inj same)]
      exact field.leads_delete.andThen fun _ t empty => empty.leads_paint "black"
    · rename_i other
      rw [if_neg fun same => other (congrArg some same)]
      exact .pure field
  | focusOut =>
    refine .bind (field.leads_getContent ?_)
    dsimp only [Look.next]
    split
    · rename_i empty
      refine .bind (.get (.bind ?_))
      rw [field.placeholder]
      refine (field.leads_insert p).imp fun _ t filled => ?_
      rw [String.isEmpty_iff.mp empty, String.append_empty] at filled
      exact filled.leads_paint "grey"
    · exact .pure field
  | type text => exact .modify (field.edited ⟨rfl, rfl, rfl⟩ field.placeholder rfl field.grey)
  | setText name text =>
    have found := run_findWidget field.widgets name
    rw [called name text mem_cons_self] at found
    refine .bind (.of_ok found (.bind (.get (.tryCatch ?_))))
    rw [field.entry, field.placeholder]
    refine field.leads_delete.andThen fun _ _ empty => (empty.leads_insert text).andThen fun _ _ filled => ?_
    refine (filled.leads_paint _).imp fun _ u painted => ?_
    have grey : decide ((if some p = some text then "grey" else "black") = "grey") = decide (text = p) := by
      by_cases same : text = p
      · simp [same]
      · simp [same, Ne.symm same]
    rw [grey, String.append_empty] at painted
    exact painted

theorem Field.leads_events (field : Field i (some p) t.widgets l s) (called : Called i t events) :
    Leads (events.forM (FieldEvent.run i)) s (fun _ => Field i (some p) t.widgets (events.foldl (Look.next p) l))
      fun _ _ => False := by
  induction events generalizing s l with
  | nil => exact .pure field
  | cons e events ih =>
    have first : Called i t [e] := fun name text same => called name text (by simp_all)
    have rest : Called i t events := fun name text later => called name text (mem_cons_of_mem e later)
    exact (field.leads_event first).andThen fun _ u field => ih field rest

/-! ## Grey fields -/

/-- Text typed over a placeholder that the script has put there stays grey. -/
theorem Look.after_overtyped (before : List FieldEvent) (name : String) (texts : List String) (text : String) :
    Look.after p (before ++ .setText name p :: (texts ++ [text]).map .type) = ⟨text, true⟩ := by
  have typed : ∀ (texts : List String) (l : Look), (texts.map FieldEvent.type).foldl (Look.next p) l =
      ⟨texts.getLast?.getD l.content, l.grey⟩ := by
    intro texts
    induction texts using reverseRecOn with
    | nil => exact fun _ => rfl
    | append_singleton texts text ih => simp [ih, Look.next]
  simp [Look.after, typed, Look.next]

/-- Grey tells of the placeholder, and a grey field that the user is in got its text from the script. -/
structure Honest (p : String) (before : List FieldEvent) : Prop where
  content : (Look.after p before).grey = true → (Look.after p before).content = p
  given : (Look.after p before).grey = true → before.foldl FieldEvent.inside false = true →
    ∃ first name, ∃ texts : List String, before = first ++ .setText name p :: texts.map .type

theorem Honest.next {before : List FieldEvent} {e : FieldEvent} (honest : Honest p before)
    (possible : e.Possible (before.foldl FieldEvent.inside false))
    (kept : ∀ first name (texts : List String), before ++ [e] = first ++ .setText name p :: texts.map .type →
      ∀ text ∈ texts, text = p) : Honest p (before ++ [e]) := by
  have look : Look.after p (before ++ [e]) = (Look.after p before).next p e := by simp [Look.after]
  have inside : (before ++ [e]).foldl FieldEvent.inside false = e.inside (before.foldl FieldEvent.inside false) := by simp
  cases e with
  | focusIn =>
    have black : ((Look.after p before).next p .focusIn).grey = false := by
      dsimp only [Look.next]
      split
      · rfl
      · rename_i other
        exact Bool.eq_false_iff.mpr (mt honest.content other)
    constructor <;> (rw [look, black]; exact nofun)
  | focusOut =>
    refine ⟨fun grey => ?_, fun _ outside => ?_⟩
    · rw [look] at grey ⊢
      dsimp only [Look.next] at grey ⊢
      split at grey
      · rw [if_pos ‹_›]
      · rw [if_neg ‹_›]
        exact honest.content grey
    · rw [inside] at outside
      cases outside
  | type text =>
    have given (grey : (Look.after p (before ++ [.type text])).grey) :
        ∃ first name texts, before ++ [.type text] = first ++ .setText name p :: (texts ++ [text]).map .type := by
      rw [look] at grey
      obtain ⟨first, name, texts, rfl⟩ := honest.given grey possible
      exact ⟨first, name, texts, by simp⟩
    refine ⟨fun grey => ?_, fun grey _ => ?_⟩
    · obtain ⟨first, name, texts, same⟩ := given grey
      rw [look]
      exact kept first name _ same text (by simp)
    · obtain ⟨first, name, texts, same⟩ := given grey
      exact ⟨first, name, _, same⟩
  | setText name text =>
    have own (grey : (Look.after p (before ++ [.setText name text])).grey) : text = p := by
      rw [look] at grey
      exact of_decide_eq_true grey
    refine ⟨fun grey => ?_, fun grey _ => ⟨before, name, [], by rw [own grey]; rfl⟩⟩
    rw [look]
    exact own grey

theorem Look.tells_iff (orderly : Orderly events) :
    (∀ before, before <+: events → (Look.after p before).grey → (Look.after p before).content = p) ↔
      ∀ before name (texts : List String), before ++ .setText name p :: texts.map .type <+: events →
        ∀ text ∈ texts, text = p := by
  constructor
  · intro tells before name texts part text member
    obtain ⟨earlier, later, rfl⟩ := append_of_mem member
    have shown := tells (before ++ .setText name p :: (earlier ++ [text]).map .type) (IsPrefix.trans ⟨later.map .type, by simp⟩ part)
    rw [Look.after_overtyped] at shown
    exact shown rfl
  · intro kept before part
    refine Honest.content ?_
    induction before using reverseRecOn with
    | nil => exact ⟨fun _ => rfl, nofun⟩
    | append_singleton before e ih =>
      refine (ih (IsPrefix.trans ⟨[e], rfl⟩ part)).next (orderly before e part) fun first name texts same => ?_
      exact kept first name texts (same ▸ part)

/-- **Grey tells of the placeholder as long as the user does not type over one that the script has put there.** After that a typed
text is grey and has no value. If it never happens, only the placeholder and the empty text have no value. -/
theorem grey_tells_placeholder_iff {box : Gui.Box} {id : String} (filled : p ≠ "")
    (made : (Gui.createEntry box p).run.run s = (.ok id, t)) (known : t.widgets.find? id = some i) (orderly : Orderly events)
    (called : Called i t events) :
    let after (before : List FieldEvent) := (before.forM (FieldEvent.run i)).run.run t
    let field (before : List FieldEvent) := (after before).2.object i
    (∀ before, before <+: events → (after before).1 = .ok () ∧
        (Gui.getValue id).run.run (after before).2 =
          (.ok (if (field before).isGrey then "" else (field before).content), (after before).2)) ∧
      ((∀ before, before <+: events → ((field before).isGrey = true → (field before).content = p) ∧
          ∀ u, (Gui.getValue id).run.run (after before).2 = (.ok "", u) → (field before).content ∈ ["", p]) ↔
        ∀ before name (texts : List String), before ++ .setText name p :: texts.map .type <+: events →
          ∀ text ∈ texts, text = p) := by
  intro after field
  have fresh : Field i (some p) t.widgets ⟨p, true⟩ t := by
    have leads := (leads_createEntry box p (s := s)).1
    rw [made] at leads
    obtain ⟨j, named, fresh⟩ := leads id rfl
    cases named.symm.trans known
    rw [if_neg (by simpa using filled), show (!p.isEmpty) = true by simpa using filled] at fresh
    exact fresh
  have looks : ∀ before, before <+: events → (after before).1 = .ok () ∧
      Field i (some p) t.widgets (Look.after p before) (after before).2 := by
    intro before part
    have addressed : Called i t before := fun name text member => called name text (part.subset member)
    obtain ⟨⟨⟩, u, ran, shown⟩ := (fresh.leads_events addressed).exists_run
    dsimp only [after]
    rw [ran]
    exact ⟨rfl, shown⟩
  have value : ∀ before, before <+: events → (Gui.getValue id).run.run (after before).2 =
      (.ok (if (field before).isGrey then "" else (field before).content), (after before).2) := by
    intro before part
    obtain ⟨-, shown⟩ := looks before part
    rw [shown.run_getValue known, ← shown.grey, ← shown.content]
  refine ⟨fun before part => ⟨(looks before part).1, value before part⟩, ?_⟩
  rw [← Look.tells_iff orderly]
  refine forall₂_congr fun before part => ?_
  obtain ⟨-, shown⟩ := looks before part
  rw [← shown.grey, ← shown.content]
  refine ⟨And.left, fun tells => ⟨tells, fun u empty => ?_⟩⟩
  rw [value before part] at empty
  have none := Except.ok.inj (Prod.mk.inj empty).1
  split at none
  · exact tells ‹_› ▸ mem_cons_of_mem _ mem_cons_self
  · exact none ▸ mem_cons_self

end

def windowed : Screen := ((Gui.createWindow {}).run.run {}).2

def hinted : Screen := ((Gui.createEntry {} "hint").run.run windowed).2

/-- The user comes, the script shows the placeholder, and the user types. -/
def overtyping : List FieldEvent := [.focusIn, .setText "entry_0" "hint", .type "abc"]

theorem orderly_overtyping : Orderly overtyping := by
  rintro before e ⟨rest, same⟩
  rcases before with _ | ⟨a, _ | ⟨b, _ | ⟨c, before⟩⟩⟩
  all_goals simp_all [overtyping, FieldEvent.Possible, FieldEvent.inside]

theorem called_overtyping : Called 1 hinted overtyping := by
  intro name text member
  obtain ⟨rfl, rfl⟩ : name = "entry_0" ∧ text = "hint" := by simpa [overtyping] using member
  exact Prod.ext (by decide) rfl

/-- What the user has typed is grey, and the script does not get it. -/
theorem typed_text_withheld :
    let u := ((overtyping.forM (FieldEvent.run 1)).run.run hinted).2
    Orderly overtyping ∧ Called 1 hinted overtyping ∧ (u.object 1).isGrey = true ∧ (u.object 1).content = "abc" ∧
      ((Gui.getValue "entry_0").run.run u).1 = .ok "" :=
  ⟨orderly_overtyping, called_overtyping, by decide, by decide, by decide⟩

theorem grey_tells_placeholder_iff_hinted :
    ("hint" ≠ "" ∧ (Gui.createEntry {} "hint").run.run windowed = (.ok "entry_0", hinted) ∧
        hinted.widgets.find? "entry_0" = some 1 ∧ Orderly overtyping ∧ Called 1 hinted overtyping) ∧
      ((overtyping.forM (FieldEvent.run 1)).run.run hinted).1 = .ok () := by
  have filled : "hint" ≠ "" := by decide
  have made : (Gui.createEntry {} "hint").run.run windowed = (.ok "entry_0", hinted) := Prod.ext (by decide) rfl
  have known : hinted.widgets.find? "entry_0" = some 1 := by decide
  have tells := grey_tells_placeholder_iff filled made known orderly_overtyping called_overtyping
  exact ⟨⟨filled, made, known, orderly_overtyping, called_overtyping⟩, (tells.1 overtyping (prefix_refl _)).1⟩

end LineScript.Window
