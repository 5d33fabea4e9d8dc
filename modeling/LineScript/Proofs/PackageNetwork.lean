
import LineScript.Package.Manager
import LineScript.Proofs.JsonForm
import LineScript.Proofs.Leads

/-!
# What the network tells

What stops the package manager is always a fault (`ByFault`). Acts that only ask the network leave the disk alone (`Quiet`),
and what they give is told by the network (`offers`, `listed`, `languageAt`).
-/

namespace LineScript

variable {σ : Type} {reason : Stop}

variable {α β : Type}

variable {keep : σ → Prop}

/-- A step that stops does so by a fault, and leaves a state as `keep` says. -/
def ByFault {σ : Type} (keep : σ → Prop) : Stop → σ → Prop
  | .fault _, s => keep s
  | _, _ => False

theorem ByFault.exists_fault {s : σ} (h : ByFault keep reason s) : ∃ f, reason = .fault f ∧ keep s := by
  cases reason with
  | fault f => exact ⟨f, rfl, h⟩
  | _ => exact h.elim

theorem ByFault.mono {τ : Type} {keep' : τ → Prop} {s : σ} {t : τ} (weaker : keep s → keep' t)
    (h : ByFault keep reason s) : ByFault keep' reason t := by
  obtain ⟨f, rfl, kept⟩ := h.exists_fault
  exact weaker kept

/-- However it ends, a step leaves a state as `keep` says, and if it stops, it does so by a fault. -/
abbrev Tame {σ : Type} (x : ExceptT Stop (StateM σ) α) (s : σ) (keep : σ → Prop) : Prop :=
  Leads x s (fun _ => keep) (ByFault keep)

theorem Tame.ends {x : ExceptT Stop (StateM σ) α} {s : σ} (hx : Tame x s keep) : keep (x.run.run s).2 := by
  refine Leads.ends (hx.mono (fun _ _ => id) fun _ _ h => ?_)
  obtain ⟨f, -, kept⟩ := h.exists_fault
  exact kept

namespace Act

variable {w : World} {post : α → World → Prop} {stop : Stop → World → Prop}

protected theorem leads_check {r : Except Fault α} (go : ∀ a, r = .ok a → post a w)
    (halt : ∀ f, r = .error f → stop (.fault f) w) : Leads (check r) w post stop := by
  cases r with
  | error f => exact .throw (halt f rfl)
  | ok a => exact .pure (go a rfl)

protected theorem leads_alter {f : Disk → Except Fault Disk} {post : Unit → World → Prop}
    (go : ∀ e, f w.disk = .ok e → post () { w with disk := e })
    (halt : ∀ g, f w.disk = .error g → stop (.fault g) w) : Leads (alter f) w post stop :=
  .bind (.get (.bind (Act.leads_check (fun e changed => .set (go e changed)) halt)))

protected theorem leads_alterPartly {f : Disk → Disk × Option Fault} {post : Unit → World → Prop}
    (go : (f w.disk).2 = none → post () { w with disk := (f w.disk).1 })
    (halt : ∀ g, (f w.disk).2 = some g → stop (.fault g) { w with disk := (f w.disk).1 }) :
    Leads (alterPartly f) w post stop := by
  refine .bind (.get ?_)
  rcases ended : f w.disk with ⟨e, _ | g⟩
  all_goals rw [ended] at go halt
  · exact .bind (.set (.pure (go rfl)))
  · exact .bind (.set (.throw (halt g rfl)))

protected theorem leads_ask {prompt : String} {post : String → World → Prop}
    (go : ∀ line rest, w.input = .line line :: rest → post line { w with output := w.output ++ prompt, input := rest })
    (ended : w.input = [] → stop (.fault .endOfInput) { w with output := w.output ++ prompt })
    (broken : ∀ rest, w.input = .interrupt :: rest → stop .interrupted { w with output := w.output ++ prompt, input := rest }) :
    Leads (ask prompt) w post stop := by
  refine .bind (.modify (.bind (.get ?_)))
  dsimp only
  split
  · exact .throw (ended ‹_›)
  · exact .bind (.set (.pure (go _ _ ‹_›)))
  · exact .bind (.set (.throw (broken _ ‹_›)))

end Act

/-- What has been shown stays, and more may follow. -/
def World.Shown (w v : World) : Prop := ∃ more, v.output = w.output ++ more

theorem World.Shown.refl (w : World) : w.Shown w := ⟨"", String.append_empty.symm⟩

theorem World.Shown.append {w v : World} (h : w.Shown v) (text : String) : w.Shown { v with output := v.output ++ text } := by
  obtain ⟨more, shown⟩ := h
  exact ⟨more ++ text, by rw [shown, String.append_assoc]⟩

/-! ## Acts that leave the disk alone -/

/-- Two worlds with the same disk and the same network. -/
structure Untouched (w v : World) : Prop where
  disk : v.disk = w.disk
  remote : v.remote = w.remote

theorem Untouched.refl (w : World) : Untouched w w := ⟨rfl, rfl⟩

theorem Untouched.trans {u v w : World} (first : Untouched u v) (second : Untouched v w) : Untouched u w :=
  ⟨second.disk.trans first.disk, second.remote.trans first.remote⟩

/-- An act that leaves the disk alone and stops by faults only, with what the network has to do with its result. -/
def Quiet (x : Act α) (fact : Table Reply → α → Prop) : Prop :=
  ∀ w, Leads x w (fun a v => Untouched w v ∧ fact w.remote a) (ByFault (Untouched w))

namespace Quiet

variable {x : Act α} {k : α → Act β} {fact : Table Reply → α → Prop} {last : Table Reply → β → Prop}

protected theorem pure {a : α} (h : ∀ remote, fact remote a) : Quiet (pure a) fact :=
  fun w => .pure ⟨.refl w, h _⟩

protected theorem fail (f : Fault) : Quiet (Act.fail f) fact := fun w => .throw (Untouched.refl w)

protected theorem fail_bind (f : Fault) : Quiet (Act.fail f >>= k) last := fun w => .bind (.throw (Untouched.refl w))

protected theorem check {r : Except Fault α} (h : ∀ remote a, r = .ok a → fact remote a) : Quiet (Act.check r) fact := by
  cases r with
  | error f => exact .fail f
  | ok a => exact .pure fun remote => h remote a rfl

protected theorem write (text : String) : Quiet (Act.write text) fun _ _ => True :=
  fun _ => .modify ⟨⟨rfl, rfl⟩, trivial⟩

protected theorem say (text : String) : Quiet (Act.say text) fun _ _ => True := .write _

protected theorem emit (e : Effect) : Quiet (Act.emit e) fun _ _ => True :=
  fun _ => .modify ⟨⟨rfl, rfl⟩, trivial⟩

protected theorem bind (hx : Quiet x fact) (hk : ∀ a, Quiet (k a) fun remote b => fact remote a → last remote b) :
    Quiet (x >>= k) last := by
  intro w
  refine (hx w).andThen fun a v h => ?_
  refine (hk a v).mono (fun b u h' => ⟨h.1.trans h'.1, ?_⟩) fun _ _ => .mono h.1.trans
  rw [h.1.remote] at h'
  exact h'.2 h.2

protected theorem recover {h : Fault → Act α} (hx : Quiet x fact) (hh : ∀ f, Quiet (h f) fact) :
    Quiet (Act.recover x h) fact := by
  intro w
  refine .tryCatch ((hx w).mono (fun _ _ => id) fun e v same => ?_)
  obtain ⟨f, rfl, same⟩ := same.exists_fault
  refine (hh f v).mono (fun a u h' => ⟨same.trans h'.1, ?_⟩) fun _ _ => .mono same.trans
  rw [← same.remote]
  exact h'.2

protected theorem ite {c : Prop} [Decidable c] {y : Act α} (hx : Quiet x fact) (hy : Quiet y fact) :
    Quiet (if c then x else y) fact := by
  split
  · exact hx
  · exact hy

end Quiet

namespace Pkg

variable {remote : Table Reply} {name file : String} {data index : Json}

/-! ## The network -/

variable (ref : List Char)

def offered? (remote : Table Reply) : Option Json :=
  match remote.find? "index.json" with
  | some (.page status body) => if status = 404 || status = 500 then none else (Json.ofText body.toList).toOption
  | _ => none

theorem wellFormed_of_offered? {j : Json} (h : offered? remote = some j) : j.WellFormed := by
  unfold offered? at h
  split at h
  · rename_i body _
    split at h
    · cases h
    · cases read : Json.ofText body.toList with
      | error f => simp [read, Except.toOption] at h
      | ok k =>
        obtain rfl : k = j := by simpa [read, Except.toOption] using h
        exact Json.wellFormed_ofText read
  · cases h

def offers (remote : Table Reply) : List String :=
  match offered? remote with
  | some (.obj fields) => Table.names fields
  | _ => []

theorem mem_offers (offer : offered? remote = some index) (found : index.need name = .ok data) : name ∈ offers remote := by
  unfold Json.need at found
  split at found
  · split at found
    · rename_i value there
      unfold offers
      rw [offer]
      exact List.mem_map_of_mem (Table.mem_of_find? there)
    · cases found
  all_goals cases found

/-- The files that an index lists for a package. -/
def listedIn (index : Json) (name : String) : List String :=
  match (do (← (← index.need name).need "files").elements : Except Fault (List Json)) with
  | .ok entries => entries.filterMap fun
    | .str file => some file
    | _ => none
  | .error _ => []

def listed (remote : Table Reply) (name : String) : List String :=
  match offered? remote with
  | some index => listedIn index name
  | none => []

theorem mem_listed {files : Json} {entries : List Json} (offer : offered? remote = some index)
    (found : index.need name = .ok data) (known : data.need "files" = .ok files) (all : files.elements = .ok entries)
    (member : .str file ∈ entries) : file ∈ listed remote name := by
  have run : (do (← (← index.need name).need "files").elements : Except Fault (List Json)) = .ok entries := by
    rw [found]
    show (data.need "files" >>= fun files => files.elements) = _
    rw [known]
    exact all
  unfold listed listedIn
  rw [offer]
  dsimp only
  rw [run]
  exact List.mem_filterMap.mpr ⟨_, member, rfl⟩

theorem mem_offers_of_listed (member : file ∈ listed remote name) : name ∈ offers remote := by
  unfold listed listedIn at member
  split at member
  · rename_i index offer
    split at member
    · rename_i entries all
      obtain ⟨data, found, -⟩ := Json.exists_of_bind_eq_ok all
      exact mem_offers offer found
    · cases member
  · cases member

def pageText? (remote : Table Reply) (ref : List Char) : Option String :=
  match remote.find? (String.ofList (Address.key (Address.resolve ref))) with
  | some (.page status body) => if status = 404 || status = 500 then none else some body
  | _ => none

theorem run_fetch (key : String) (w : World) :
    (Act.fetch key).run.run w =
      (.ok ((w.remote.find? key).getD (.page 404 "")), { w with store := w.store.emit (.http key) }) := by
  have fetch : Act.fetch key = do
      Act.emit (.http key)
      return ((← get).remote.find? key).getD (.page 404 "") := by
    refine bind_congr fun _ => bind_congr fun v => ?_
    cases v.remote.find? key <;> rfl
  rw [fetch]
  rfl

def asked (ref : List Char) (w : World) : World :=
  { w with store := w.store.emit (.http (String.ofList (Address.key (Address.resolve ref)))) }

theorem untouched_asked (w : World) : Untouched w (asked ref w) := ⟨rfl, rfl⟩

theorem run_page_cases (w : World) :
    (∃ body, pageText? w.remote ref = some body ∧ (page ref).run.run w = (.ok body, asked ref w)) ∨
      pageText? w.remote ref = none ∧
        ∃ f : Fault, f.isKind .request ∧ (page ref).run.run w = (.error (.fault f), asked ref w) := by
  unfold page pageText?
  rw [ExceptT.run_bind, StateT.run_bind, run_fetch]
  rcases w.remote.find? (String.ofList (Address.key (Address.resolve ref))) with _ | ⟨status, body⟩ | m
  · exact .inr ⟨rfl, _, rfl, rfl⟩
  · by_cases missing : status = 404
    · subst missing
      exact .inr ⟨rfl, _, rfl, rfl⟩
    · by_cases broken : status = 500
      · subst broken
        exact .inr ⟨rfl, _, rfl, rfl⟩
      · left
        refine ⟨body, by simp [missing, broken], ?_⟩
        change StateT.run (ExceptT.run (if status = 404 then _ else if status = 500 then _ else (pure body : Act String))) _ = _
        rw [if_neg missing, if_neg broken]
        rfl
  · exact .inr ⟨rfl, _, rfl, rfl⟩

theorem leads_page (w : World) : Leads (page ref) w (fun body v => v = asked ref w ∧ pageText? w.remote ref = some body)
      fun reason v => v = asked ref w ∧ pageText? w.remote ref = none ∧ ∃ f, reason = .fault f ∧ f.isKind .request := by
  rcases run_page_cases ref w with ⟨body, there, ran⟩ | ⟨none, f, kind, ran⟩
  · exact .of_ok ran ⟨rfl, there⟩
  · exact .of_error ran ⟨rfl, none, f, rfl, kind⟩

theorem quiet_page : Quiet (page ref) fun remote body => pageText? remote ref = some body := by
  intro w
  refine (leads_page ref w).mono ?_ ?_
  · rintro body - ⟨rfl, there⟩
    exact ⟨untouched_asked ref w, there⟩
  · rintro - - ⟨rfl, -, f, rfl, -⟩
    exact untouched_asked ref w

theorem key_index : String.ofList (Address.key (Address.resolve "index.json".toList)) = "index.json" := by decide

theorem offered?_eq (remote : Table Reply) :
    offered? remote = (pageText? remote "index.json".toList).bind fun body => (Json.ofText body.toList).toOption := by
  unfold offered? pageText?
  rw [key_index]
  rcases remote.find? "index.json" with _ | ⟨status, body⟩ | m
  · rfl
  · dsimp only
    split <;> rfl
  · rfl

theorem quiet_fetchIndex : Quiet fetchIndex fun remote j => offered? remote = some j := by
  refine .recover (.bind (quiet_page _) fun body => .check fun remote j read there => ?_) fun f => .ite (.fail _) (.fail _)
  unfold readReply at read
  split at read
  · rename_i value text
    cases read
    rw [offered?_eq, there, Option.bind_some, text]
    rfl
  · cases read

/-- The language that the manifest on the network gives a package: one of two. -/
def languageAt (remote : Table Reply) (name : String) : String :=
  let language := ((pageText? remote (manifestRef name)).bind languageIn?).getD "python"
  if language = "python" || language = "guython" then language else "python"

theorem exists_run_remoteLanguage (name : String) (w : World) : ∃ v, Untouched w v ∧ (remoteLanguage name).run.run w =
      (.ok (((pageText? w.remote (manifestRef name)).bind languageIn?).getD "python"), v) := by
  refine ⟨asked (manifestRef name) w, untouched_asked _ w, ?_⟩
  rcases run_page_cases (manifestRef name) w with ⟨body, there, ran⟩ | ⟨none, f, kind, ran⟩
  all_goals
    unfold remoteLanguage Act.recover
    rw [ExceptT.run_tryCatch, StateT.run_bind, ExceptT.run_bind, StateT.run_bind, ran]
  · rw [there]
    rfl
  · rw [none]
    change StateT.run (ExceptT.run (if f.isKind .request then pure "python" else Act.fail f : Act String)) _ = _
    rw [kind]
    rfl

theorem quiet_installLanguage (name : String) :
    Quiet (installLanguage name) fun remote language => language = languageAt remote name := by
  have told : Quiet (remoteLanguage name) fun remote language =>
      language = ((pageText? remote (manifestRef name)).bind languageIn?).getD "python" := by
    intro w
    obtain ⟨v, same, ran⟩ := exists_run_remoteLanguage name w
    exact .of_ok ran ⟨same, rfl⟩
  refine .bind told fun language => .pure fun remote same => ?_
  subst same
  rfl

theorem quiet_describe (name : String) :
    Quiet (describe name) fun remote told =>
      ∃ index, offered? remote = some index ∧ index.need name = .ok told.1 ∧ told.2 = languageAt remote name := by
  refine .bind quiet_fetchIndex fun index => .bind (.check fun _ _ _ => trivial : Quiet _ fun _ _ => True) fun known => ?_
  cases known with
  | false => exact .fail_bind _
  | true =>
    refine .bind (.check fun _ _ h => h) fun data => .bind (quiet_installLanguage name) fun language => ?_
    exact .pure fun remote same found _ offer => ⟨index, offer, found, same⟩

theorem quiet_tryFetchIndex :
    Quiet tryFetchIndex fun remote found => ∀ index, found = some index → offered? remote = some index := by
  refine .recover (.bind quiet_fetchIndex fun j => .pure fun remote offer index same => ?_) fun f => ?_
  · cases same
    exact offer
  · split
    · exact .bind (.say _) fun _ => .pure nofun
    · exact .fail _

theorem quiet_checkOne (remote : Json) (name : String) (data : Json) : Quiet (checkOne remote name data) fun _ _ => True := by
  have check {α : Type} (r : Except Fault α) : Quiet (Act.check r) fun _ _ => True := .check fun _ _ _ => trivial
  refine .bind (check _) fun current => .bind (check _) fun version => ?_
  cases version with
  | none => exact .bind (.say _) fun _ => .pure fun _ _ _ _ => trivial
  | some version =>
    refine .bind (check _) fun shown => .ite ?_ ?_
    · exact .bind (.say _) fun _ => .pure fun _ _ _ _ _ => trivial
    · exact .bind (check _) fun _ => .bind (.say _) fun _ => .pure fun _ _ _ _ _ _ => trivial

end Pkg

end LineScript
