
import LineScript.Expr.Eval

/-!
# Lists that stay as they are

If no method is called that changes its list, an evaluation leaves every list that was there as it was (`Store.Grows`). Which
calls an evaluation makes is a matter of how far it comes, so they are collected along its way (`calls`).
-/

namespace LineScript

open List

variable {α β : Type}

/-! ## Stores that grow -/

/-- Every list of the first store is in the second one as it was. -/
def Store.Grows (s t : Store) : Prop := ∃ new, t.lists = s.lists ++ new

namespace Store.Grows

protected theorem refl (s : Store) : s.Grows s := ⟨#[], Array.append_empty.symm⟩

protected theorem trans {s t u : Store} (first : s.Grows t) (second : t.Grows u) : s.Grows u := by
  obtain ⟨new, more⟩ := first
  obtain ⟨new', more'⟩ := second
  exact ⟨new ++ new', by rw [more', more, Array.append_assoc]⟩

theorem of_lists {s t : Store} (same : t.lists = s.lists) : s.Grows t := ⟨#[], same.trans Array.append_empty.symm⟩

theorem items {s t : Store} (h : s.Grows t) {ref : Nat} (there : ref < s.lists.size) : t.items ref = s.items ref := by
  obtain ⟨new, more⟩ := h
  unfold Store.items
  rw [more, Array.getElem?_append_left there]

end Store.Grows

/-- A computation that leaves every list as it is. -/
def Adds (x : Eval α) : Prop := ∀ s : Store, s.Grows (x.run.run s).2

theorem Store.Grows.bind {x : Eval α} {k : α → Eval β} {s : Store} (first : s.Grows (x.run.run s).2)
    (next : ∀ a t, x.run.run s = (.ok a, t) → t.Grows ((k a).run.run t).2) : s.Grows ((x >>= k).run.run s).2 := by
  rw [ExceptT.run_bind, StateT.run_bind]
  rcases ran : StateT.run (ExceptT.run x) s with ⟨f | a, t⟩
  · rw [ran] at first
    exact first
  · rw [ran] at first
    exact first.trans (next a t ran)

/-- Telling a fault in other words leaves the store that the fault has left. -/
theorem Store.Grows.tryCatch {x : Eval α} {words : Fault → Fault} {s : Store} (first : s.Grows (x.run.run s).2) :
    s.Grows ((tryCatch x fun f => throw (words f)).run.run s).2 := by
  rw [ExceptT.run_tryCatch, StateT.run_bind]
  rcases ran : StateT.run (ExceptT.run x) s with ⟨f | a, t⟩
  all_goals
    rw [ran] at first
    exact first

namespace Adds

protected theorem pure (a : α) : Adds (pure a) := fun s => .refl s

protected theorem throw (f : Fault) : Adds (throw f : Eval α) := fun s => .refl s

protected theorem get : Adds (get : Eval Store) := fun s => .refl s

protected theorem lift (r : Except Fault α) : Adds (liftM r : Eval α) := by
  intro s
  cases r <;> exact .refl s

protected theorem modify {f : Store → Store} (same : ∀ s, (f s).lists = s.lists) : Adds (modify f) :=
  fun s => .of_lists (same s)

protected theorem newList (vs : List Value) : Adds (Eval.newList vs) := fun _ => ⟨#[vs], Array.push_eq_append⟩

protected theorem bind {x : Eval α} {k : α → Eval β} (hx : Adds x) (hk : ∀ a, Adds (k a)) : Adds (x >>= k) :=
  fun s => (hx s).bind fun a t _ => hk a t

protected theorem foldlM {f : β → α → Eval β} {xs : List α} (hf : ∀ b, ∀ a ∈ xs, Adds (f b a)) (b : β) :
    Adds (xs.foldlM f b) := by
  induction xs generalizing b with
  | nil => exact .pure b
  | cons a xs ih =>
    exact .bind (hf b a mem_cons_self) fun c => ih (fun b a ha => hf b a (mem_cons_of_mem _ ha)) c

end Adds

/-! ## Operators -/

namespace Value

theorem adds_add (l r : Value) : Adds (add l r) := by
  unfold add
  split
  · exact .pure _
  · exact .throw _
  · exact .pure _
  · exact .throw _
  · exact .bind .get fun _ => .newList _
  · exact .throw _
  · exact .pure _
  · exact .throw _
  · exact .lift _

theorem adds_repeatSequence {v count : Value} {x : Eval Value} (h : repeatSequence v count = some x) : Adds x := by
  cases v with
  | str _ | bytes _ | tuple _ =>
    cases h
    split
    · exact .bind (.lift _) fun _ => .pure _
    · exact .throw _
  | list ref =>
    cases h
    split
    · exact .bind .get fun _ => .bind (.lift _) fun _ => .newList _
    · exact .throw _
  | _ => cases h

theorem adds_mul (l r : Value) : Adds (mul l r) := by
  unfold mul
  split
  · exact .bind (.lift _) fun _ => .pure _
  · split
    · exact adds_repeatSequence (by assumption)
    · split
      · exact adds_repeatSequence (by assumption)
      · exact .throw _

/-! ## Methods -/

theorem adds_callText (s : List Char) (m : Method) (a : Args) : Adds (callText s m a) := by
  cases m with
  | upper | lower | title | capitalize | isdigit | isalpha | isnumeric | isalnum | isspace =>
    exact .bind (.lift _) fun _ => .pure _
  | strip | lstrip | rstrip | replace | count | center | ljust | rjust => exact .bind (.lift _) fun _ => .pure _
  | startswith | endswith => exact .lift _
  | split => exact .bind (.lift _) fun _ => .newList _
  | join => exact .bind (.lift _) fun _ => .bind .get fun _ => .bind (.lift _) fun _ => .pure _
  | zfill => exact .bind (.lift _) fun _ => .bind (.lift _) fun _ => .pure _
  | find =>
    refine .bind (.lift _) fun found => ?_
    cases found <;> exact .pure _
  | index =>
    refine .bind (.lift _) fun found => ?_
    cases found with
    | none => exact .throw _
    | some i => exact .pure _
  | _ => exact .throw _

end Value

def Method.changes : Method → Bool
  | .pop | .append | .extend | .insert | .remove | .reverse | .clear => true
  | _ => false

namespace Value

variable {a : Args} {name : String} {s : Store} {params : List (String × Option Value)} {op : OrderOp}
  {call : Value → Value → Eval Value} {m : Method} {v : Value} {b : Builtin}

theorem adds_callList (ref : Nat) (keeps : m.changes = false) (a : Args) : Adds (callList ref m a) := by
  refine .bind .get fun store => ?_
  cases m with
  | listCount => exact .bind (.lift _) fun _ => .bind (.lift _) fun _ => .pure _
  | listIndex =>
    refine .bind (.lift _) fun _ => .bind (.lift _) fun _ => .bind (.lift _) fun _ => .bind (.lift _) fun found => ?_
    cases found with
    | none => exact .bind (.lift _) fun _ => .throw _
    | some k => exact .pure _
  | copy => exact .bind (.lift _) fun _ => .newList _
  | pop | append | extend | insert | remove | reverse | clear => cases keeps
  | _ => exact .throw _

def isChanging : Value → Bool
  | .method (.list _) m => m.changes
  | _ => false

theorem adds_callMethod {self : Value} (keeps : isChanging (.method self m) = false) (a : Args) :
    Adds (callMethod self m a) := by
  unfold callMethod
  split
  · exact adds_callText _ m a
  · exact adds_callList _ keeps a
  all_goals exact .bind (.lift _) fun _ => .pure _

/-! ## Functions of libraries -/

theorem adds_callNamed (keeps : ∀ w, attribute? v name = some w → isChanging w = false) (args : List Value) :
    Adds (callNamed v name args) := by
  unfold callNamed
  split
  · rename_i self m found
    exact adds_callMethod (keeps _ found) _
  · exact .throw _

theorem adds_reversed (v : Value) : Adds (reversed v) := by
  unfold reversed
  split
  · exact .pure _
  · exact .pure _
  · exact .pure _
  · exact .bind .get fun _ => .newList _
  all_goals exact .throw _

/-- The method of its first argument that a function of the library of texts calls. -/
def textMethod : String → Option String
  | "reverse" => none
  | "countsubstring" => some "count"
  | "startswith" => some "startswith"
  | "endswith" => some "endswith"
  | "stripchars" => some "strip"
  | "lstripchars" => some "lstrip"
  | "rstripchars" => some "rstrip"
  | "removewhitespace" => some "split"
  | "replace" => some "replace"
  | name => some (textAlias name)

def Args.subject? (a : Args) : Option Value := a.positional.head?.or (a.keywords.lookup "s")

/-- The first of the values that parameters are bound to is that argument, and there is one. -/
theorem exists_cons_of_bind {vs : List Value} (bound : a.bind name (("s", none) :: params) = .ok vs) :
    ∃ v rest, vs = v :: rest ∧ a.subject? = some v := by
  unfold Args.bind at bound
  dsimp only at bound
  split at bound
  · cases bound
  · split at bound
    · cases bound
    · split at bound
      · cases bound
      · rename_i full
        rw [zipIdx_cons, map_cons] at bound full
        unfold Args.subject?
        rw [head?_eq_getElem?]
        cases first : a.positional[0]? with
        | some v =>
          rw [first] at bound
          exact ⟨v, _, (Except.ok.inj bound).symm, rfl⟩
        | none =>
          rw [first] at bound full
          cases given : List.lookup "s" a.keywords with
          | none =>
            rw [given] at full
            exact absurd rfl full
          | some v =>
            rw [given] at bound
            exact ⟨v, _, (Except.ok.inj bound).symm, rfl⟩

/-- A library function that hands its first argument on calls a method of it. -/
theorem adds_bind_callNamed {k : List Value → Eval Value} (each : ∀ v rest, a.subject? = some v → Adds (k (v :: rest))) :
    Adds (liftM (a.bind name (("s", none) :: params)) >>= k) := by
  cases bound : a.bind name (("s", none) :: params) with
  | error f => exact .throw f
  | ok vs =>
    obtain ⟨v, rest, rfl, subject⟩ := exists_cons_of_bind bound
    exact each v rest subject

theorem adds_callTextLibrary
    (keeps : ∀ method v w, textMethod name = some method → a.subject? = some v → attribute? v method = some w →
      isChanging w = false) : Adds (callTextLibrary name a) := by
  unfold callTextLibrary
  split
  case h_1 =>
    refine adds_bind_callNamed fun v rest _ => ?_
    split
    · exact adds_reversed _
    · exact .pure _
  case h_8 =>
    refine adds_bind_callNamed fun v rest subject => ?_
    split
    · rename_i same
      cases same
      exact .bind (adds_callNamed (keeps _ _ · rfl subject) _) fun _ => .bind .get fun _ => .bind (.lift _) fun _ => .pure _
    · exact .pure _
  case h_10 =>
    have method : textMethod name = some (textAlias name) := by
      unfold textMethod
      split <;> first | rfl | contradiction
    refine adds_bind_callNamed fun v rest subject => ?_
    split
    · rename_i same
      cases same
      exact adds_callNamed (keeps _ _ · method subject) _
    · exact .pure _
  all_goals exact adds_bind_callNamed fun v rest subject => adds_callNamed (keeps _ v · rfl subject) _

theorem adds_callTimeLibrary (name : String) (a : Args) : Adds (callTimeLibrary name a) := by
  refine .bind .get fun _ => ?_
  split
  · exact .bind (.lift _) fun _ => .lift _
  · exact .bind (.lift _) fun _ => .pure _
  · refine .bind (.lift _) fun vs => ?_
    cases vs with
    | nil => exact .pure _
    | cons v vs => exact .bind (.modify fun _ => rfl) fun _ => .pure _
  · refine .bind (.lift _) fun vs => ?_
    cases vs with
    | nil => exact .pure _
    | cons v vs => exact .bind (.lift _) fun _ => .pure _
  · exact .bind (.lift _) fun _ => .pure _
  · exact .bind (.lift _) fun _ => .lift _
  · refine .bind (.lift _) fun vs => ?_
    cases vs with
    | nil => exact .pure _
    | cons v vs => exact .lift _

theorem adds_needApp (load : Nat) : Adds (needApp load) := by
  refine .bind .get fun _ => ?_
  split
  · exact .throw _
  · exact .pure _

theorem adds_callEasyGui (load : Nat) (name : String) (a : Args) : Adds (callEasyGui load name a) := by
  have noted : ∀ entries : List Value, Adds (modify (·.emit (.model (.str "easygui" :: entries))) : Eval PUnit) := fun _ =>
    .modify fun _ => rfl
  unfold callEasyGui
  split
  · refine .bind (.lift _) fun vs => ?_
    cases vs with
    | nil => exact .pure _
    | cons v vs => exact .bind (noted _) fun _ => .bind (.modify fun _ => rfl) fun _ => .pure _
  · refine .bind (.lift _) fun vs => ?_
    cases vs with
    | nil => exact .pure _
    | cons v vs => exact .bind (adds_needApp load) fun _ => .bind (noted _) fun _ => .pure _
  · exact .bind (.lift _) fun _ => .bind (adds_needApp load) fun _ => .bind (noted _) fun _ => .pure _

/-! ## Calls -/

/-- Calling a value on some argument, if on any, calls a method that changes a list. -/
def changesOn (f : Value) (v : Option Value) : Bool :=
  match f with
  | .libraryFn .text _ name => ((textMethod name).bind fun method => v.bind (attribute? · method)).any isChanging
  | f => isChanging f

theorem adds_callLibrary {lib : Library} {load : Nat} (keeps : changesOn (.libraryFn lib load name) a.subject? = false) :
    Adds (callLibrary lib load name a) := by
  cases lib with
  | text =>
    refine adds_callTextLibrary fun method v w calls subject found => ?_
    unfold changesOn at keeps
    dsimp only at keeps
    rw [calls, subject, Option.bind_some, Option.bind_some, found] at keeps
    exact keeps
  | time => exact adds_callTimeLibrary name a
  | easygui => exact adds_callEasyGui load name a
  | empty => exact .pure _

theorem adds_callSum (a : Args) : Adds (callSum a) := by
  refine .bind (.lift _) fun _ => .bind .get fun _ => .bind (.lift _) fun items => ?_
  dsimp only
  split
  · exact .throw _
  · exact .throw _
  · exact .foldlM (fun _ _ _ => adds_add _ _) _

theorem adds_choose {key : Value → Eval Value} {items : List Value} (each : ∀ v ∈ items, Adds (key v)) :
    Adds (choose op key items) := by
  refine .bind (.foldlM (fun best v hv => .bind (each v hv) fun k => ?_) _) fun _ => .pure _
  cases best with
  | none => exact .pure _
  | some b =>
    refine .bind .get fun _ => .bind (.lift _) fun passes => ?_
    cases passes <;> exact .pure _

def candidates (store : Store) (a : Args) : List Value :=
  match a.positional with
  | [v] => (elements store v).toOption.getD []
  | vs => vs

theorem eq_of_choices {default : Option Value} {t : Store} {items : List Value}
    (chosen : (choices name a default).run.run s = (.ok items, t)) : items = candidates s a ∧ t = s := by
  unfold choices at chosen
  split at chosen
  · rename_i v one
    unfold candidates
    rw [one]
    change (liftM (elements s v) : Eval (List Value)).run.run s = _ at chosen
    dsimp only
    cases found : elements s v with
    | error f =>
      rw [found] at chosen
      cases chosen
    | ok vs =>
      rw [found] at chosen
      cases chosen
      exact ⟨rfl, rfl⟩
  · split at chosen
    · cases chosen
    · cases chosen
      rename_i several _
      refine ⟨?_, rfl⟩
      unfold candidates
      split
      · rename_i v one
        exact absurd one (several v)
      · rfl

theorem adds_choices (name : String) (a : Args) (default : Option Value) : Adds (choices name a default) := by
  unfold choices
  split
  · exact .bind .get fun _ => .lift _
  · split
    · exact .throw _
    · exact .pure _

theorem lookup_of_named {keywords : List (String × Value)} {slots : List (Option Value)}
    (named : Args.named name ["key", "default"] 0 0 ⟨[], keywords⟩ = .ok slots) :
    slots.headD none = keywords.lookup "key" := by
  unfold Args.named at named
  dsimp only at named
  split at named
  · cases named
  · split at named
    · cases named
    · split at named
      · cases named
      · split at named
        · cases named
        · split at named
          · cases named
          · rw [← Except.ok.inj named]
            rfl

theorem grows_callExtreme (each : ∀ f, a.keywords.lookup "key" = some f → ∀ v ∈ candidates s a, Adds (call f v)) :
    s.Grows ((callExtreme op b call a).run.run s).2 := by
  unfold callExtreme
  dsimp only
  split
  · exact .refl s
  · cases named : Args.named b.label ["key", "default"] 0 0 ⟨[], a.keywords⟩ with
    | error f => exact .refl s
    | ok slots =>
      refine (adds_choices _ a _ s).bind fun items t chosen => ?_
      obtain ⟨rfl, rfl⟩ := eq_of_choices chosen
      rw [lookup_of_named named]
      refine (adds_choose (fun v hv => ?_) _).bind fun best u _ => ?_
      · cases keyed : a.keywords.lookup "key" with
        | none => exact .pure _
        | some f =>
          cases f with
          | nothing => exact .pure _
          | _ => exact each _ keyed v hv
      · split <;> exact .refl u

theorem grows_callBuiltin
    (each : b = .max ∨ b = .min → ∀ f, a.keywords.lookup "key" = some f → ∀ v ∈ candidates s a, Adds (call f v)) :
    s.Grows ((callBuiltin call b a).run.run s).2 := by
  cases b with
  | abs => exact (Adds.lift _).bind (fun _ => .lift _) s
  | len => exact Adds.get.bind (fun _ => .bind (.lift _) fun _ => .bind (.lift _) fun _ => .pure _) s
  | str => exact Adds.get.bind (fun _ => .lift _) s
  | max => exact grows_callExtreme (each (Or.inl rfl))
  | min => exact grows_callExtreme (each (Or.inr rfl))
  | sum => exact adds_callSum a s
  | _ => exact Adds.lift _ s

theorem adds_callKey {f : Value} (keeps : changesOn f (some v) = false) : Adds (callKey f v) := by
  unfold callKey
  split
  · exact fun s => grows_callBuiltin fun _ g none => by cases none
  · exact adds_callLibrary keeps
  · exact adds_callMethod keeps _
  · exact .throw _

end Value

/-- A call that is made: what is called, on what, and what the store is then. -/
structure Call where
  function : Value
  args : Value.Args
  store : Store

/-- A call that calls a method that changes a list: such a method itself, a library function that calls one of its argument,
or the greatest or least by a key that does either. -/
def Call.changes (c : Call) : Bool :=
  match c.function with
  | .builtin b =>
    (b = .max || b = .min) &&
      (c.args.keywords.lookup "key").any fun f => (Value.candidates c.store c.args).any fun v => f.changesOn (some v)
  | f => f.changesOn c.args.subject?

namespace Value

theorem grows_call {c : Call} (keeps : c.changes = false) : c.store.Grows ((c.function.call c.args).run.run c.store).2 := by
  obtain ⟨f, a, s⟩ := c
  unfold Call.changes at keeps
  cases f with
  | builtin b =>
    refine grows_callBuiltin fun extreme f keyed v hv => adds_callKey ?_
    dsimp only at keeps
    have either : (decide (b = .max) || decide (b = .min)) := by
      rcases extreme with rfl | rfl <;> rfl
    rw [either, Bool.true_and, keyed, Option.any_some, any_eq_false] at keeps
    exact Bool.eq_false_iff.mpr (keeps v hv)
  | libraryFn lib load name => exact adds_callLibrary keeps s
  | method self m => exact adds_callMethod keeps a s
  | _ => exact .refl s

end Value

namespace Expr

open Value

theorem adds_binary (op : BinOp) (l r : Value) : Adds (op.apply l r) := by
  unfold BinOp.apply
  cases op with
  | add => exact adds_add l r
  | mult => exact adds_mul l r
  | sub | div | floorDiv | pow => exact .lift _
  | mod =>
    dsimp only
    split
    case h_3 => exact .lift _
    all_goals exact .bind .get fun _ => .bind (.lift _) fun _ => .pure _
  | _ => exact .throw _

theorem adds_compare (op : CompareOp) (l r : Value) : Adds (op.apply l r) := by
  refine .bind .get fun _ => ?_
  cases op with
  | eq | lt | ltE | gt | gtE => exact .lift _
  | notEq => exact .bind (.lift _) fun _ => .pure _
  | _ => exact .throw _

/-! ## The calls of an evaluation -/

/-- What comes after a computation, if it has a result. -/
def following (x : Except Fault α × Store) (next : α → Store → List Call) : List Call :=
  match x with
  | (.ok a, s) => next a s
  | (.error _, _) => []

/-- The call that is made with these arguments, unless they already make it fail. -/
def madeCall (f : Value) (args : List Value) (kwargs : List (Option String × Value)) (s : Store) : List Call :=
  match named (gather [] kwargs) with
  | .ok keywords => if f.isCallable then [⟨f, ⟨args, keywords⟩, s⟩] else []
  | .error _ => []

mutual

/-- The calls that evaluating an expression makes, in order. -/
def calls (env : Env) : Expr → Store → List Call
  | .literal _, _ | .name _, _ | .other _, _ => []
  | .attribute e _, s => calls env e s
  | .call f args kwargs, s =>
    calls env f s ++ following ((eval env f).run.run s) fun f s =>
      callsAll env args s ++ following ((evalAll env args).run.run s) fun args s =>
        callsKeywords env kwargs s ++ following ((evalKeywords env kwargs).run.run s) fun kwargs s =>
          madeCall f args kwargs s
  | .binary _ l r, s => calls env l s ++ following ((eval env l).run.run s) fun _ s => calls env r s
  | .compare l rest, s =>
    calls env l s ++ following ((eval env l).run.run s) fun l s => callsChain env true l rest s

def callsAll (env : Env) : List Expr → Store → List Call
  | [], _ => []
  | e :: es, s => calls env e s ++ following ((eval env e).run.run s) fun _ s => callsAll env es s

def callsKeywords (env : Env) : List (Option String × Expr) → Store → List Call
  | [], _ => []
  | (_, e) :: rest, s => calls env e s ++ following ((eval env e).run.run s) fun _ s => callsKeywords env rest s

def callsChain (env : Env) (holds : Bool) (l : Value) : List (CompareOp × Expr) → Store → List Call
  | [], _ => []
  | (op, e) :: rest, s =>
    calls env e s ++ following ((eval env e).run.run s) fun r s =>
      following ((if holds || !op.isOrder then op.apply l r else pure false : Eval Bool).run.run s) fun holds s =>
        callsChain env holds r rest s

end

def Quiet (cs : List Call) : Prop := ∀ c ∈ cs, c.changes = false

theorem Quiet.left {as bs : List Call} (h : Quiet (as ++ bs)) : Quiet as := fun c hc => h c (mem_append_left bs hc)

theorem Quiet.following {as : List Call} {x : Except Fault α × Store} {next : α → Store → List Call}
    (h : Quiet (as ++ Expr.following x next)) {a : α} {t : Store} (ran : x = (.ok a, t)) : Quiet (next a t) := by
  rw [ran] at h
  exact fun c hc => h c (mem_append_right as hc)

theorem grows_applyTo {f : Value} {args : List Value} {kwargs : List (Option String × Value)} {s : Store}
    (quiet : Quiet (madeCall f args kwargs s)) : s.Grows ((applyTo f args kwargs).run.run s).2 := by
  unfold madeCall at quiet
  unfold applyTo
  cases callable : f.isCallable with
  | false => exact Adds.get.bind (fun _ => .bind (.lift _) fun _ => .throw _) s
  | true =>
    refine .tryCatch ?_
    cases given : named (gather [] kwargs) with
    | error f => exact .refl s
    | ok keywords =>
      rw [given, callable] at quiet
      exact grows_call (quiet ⟨f, ⟨args, keywords⟩, s⟩ mem_cons_self)

mutual

/-- **Nothing but such methods changes a list.** -/
theorem grows_eval (env : Env) (e : Expr) (s : Store) (quiet : Quiet (calls env e s)) :
    s.Grows ((eval env e).run.run s).2 := by
  cases e with
  | literal v =>
    exact .refl s
  | name x =>
    exact Adds.lift _ s
  | other form =>
    exact .refl s
  | «attribute» e x =>
    exact (grows_eval env e s quiet).bind fun v t _ => Adds.lift _ t
  | call f args kwargs =>
    refine (grows_eval env f s quiet.left).bind fun f t called => ?_
    have quiet := quiet.following called
    refine (grows_evalAll env args t quiet.left).bind fun args u given => ?_
    have quiet := quiet.following given
    refine (grows_evalKeywords env kwargs u quiet.left).bind fun kwargs v named => ?_
    exact grows_applyTo (quiet.following named)
  | binary op l r =>
    refine (grows_eval env l s quiet.left).bind fun l t left => ?_
    exact (grows_eval env r t (quiet.following left)).bind fun r u _ => adds_binary op l r u
  | compare l rest =>
    refine (grows_eval env l s quiet.left).bind fun l t left => ?_
    exact grows_evalChain env true l rest t (quiet.following left)

theorem grows_evalAll (env : Env) (es : List Expr) (s : Store) (quiet : Quiet (callsAll env es s)) :
    s.Grows ((evalAll env es).run.run s).2 := by
  cases es with
  | nil =>
    exact .refl s
  | cons e es =>
    refine (grows_eval env e s quiet.left).bind fun v t first => ?_
    exact (grows_evalAll env es t (quiet.following first)).bind fun _ u _ => .refl u

theorem grows_evalKeywords (env : Env) (kwargs : List (Option String × Expr)) (s : Store)
    (quiet : Quiet (callsKeywords env kwargs s)) : s.Grows ((evalKeywords env kwargs).run.run s).2 := by
  cases kwargs with
  | nil =>
    exact .refl s
  | cons kwarg rest =>
    obtain ⟨k, e⟩ := kwarg
    refine (grows_eval env e s quiet.left).bind fun v t first => ?_
    exact (grows_evalKeywords env rest t (quiet.following first)).bind fun _ u _ => .refl u

theorem grows_evalChain (env : Env) (holds : Bool) (l : Value) (rest : List (CompareOp × Expr)) (s : Store)
    (quiet : Quiet (callsChain env holds l rest s)) : s.Grows ((evalChain env holds l rest).run.run s).2 := by
  cases rest with
  | nil =>
    exact .refl s
  | cons link rest =>
    obtain ⟨op, e⟩ := link
    refine (grows_eval env e s quiet.left).bind fun r t right => ?_
    have quiet := quiet.following right
    split
    · rename_i compared
      rw [if_pos compared] at quiet
      refine (adds_compare op l r t).bind fun holds u held => ?_
      rw [held] at quiet
      exact grows_evalChain env holds r rest u quiet
    · rename_i settled
      rw [if_neg settled] at quiet
      exact grows_evalChain env false r rest t quiet

end

def callsOf (env : Env) (text : List Char) (s : Store) : List Call :=
  match parse (respell text) with
  | some e => calls env e s
  | none => []

theorem grows_evaluate {env : Env} {text : List Char} {s : Store} (quiet : Quiet (callsOf env text s)) :
    s.Grows ((evaluate env text).run.run s).2 := by
  unfold callsOf at quiet
  unfold evaluate readAndEval
  refine .tryCatch ?_
  cases read : parse (respell text) with
  | none => exact .refl s
  | some e =>
    rw [read] at quiet
    exact grows_eval env e s quiet

end Expr

end LineScript
