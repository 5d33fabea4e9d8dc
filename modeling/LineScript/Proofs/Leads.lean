/-!
# Ends of a step

A step gives a result or stops for a reason, and leaves a state either way. `Leads` says what holds of the result or the
reason and of the state, and there is a rule for each way to put steps together.
-/

namespace LineScript

variable {ε σ α β : Type}

/-- From a state, a step that gives a result gives one as `post` says, together with the state it leaves; one that stops does
so for a reason, and leaves a state, as `stop` says. -/
def Leads (x : ExceptT ε (StateM σ) α) (s : σ) (post : α → σ → Prop) (stop : ε → σ → Prop) : Prop :=
  (∀ a, (x.run.run s).1 = .ok a → post a (x.run.run s).2) ∧ (∀ e, (x.run.run s).1 = .error e → stop e (x.run.run s).2)

/-- However it ends, a step leaves a state as `keep` says. -/
abbrev Always (x : ExceptT ε (StateM σ) α) (s : σ) (keep : σ → Prop) : Prop := Leads x s (fun _ => keep) fun _ => keep

namespace Leads

variable {x : ExceptT ε (StateM σ) α} {k : α → ExceptT ε (StateM σ) β} {s : σ}
  {post post' : α → σ → Prop} {last : β → σ → Prop} {stop stop' : ε → σ → Prop}

theorem mono (hx : Leads x s post stop) (go : ∀ a t, post a t → post' a t) (halt : ∀ e t, stop e t → stop' e t) :
    Leads x s post' stop' :=
  ⟨fun a h => go a _ (hx.1 a h), fun e h => halt e _ (hx.2 e h)⟩

theorem imp (hx : Leads x s post stop) (go : ∀ a t, post a t → post' a t) : Leads x s post' stop := hx.mono go fun _ _ => id

/-- What is known of a step together with how it ends. -/
theorem traced (hx : Leads x s post stop) : Leads x s (fun a t => x.run.run s = (.ok a, t) ∧ post a t) stop :=
  ⟨fun a ended => ⟨Prod.ext ended rfl, hx.1 a ended⟩, hx.2⟩

theorem ends {keep : σ → Prop} (hx : Always x s keep) : keep (x.run.run s).2 := by
  cases h : (x.run.run s).1 with
  | ok a => exact hx.1 a h
  | error e => exact hx.2 e h

theorem of_ok {a : α} {t : σ} (ran : x.run.run s = (.ok a, t)) (h : post a t) : Leads x s post stop := by
  unfold Leads
  rw [ran]
  exact ⟨fun _ same => Except.ok.inj same ▸ h, nofun⟩

theorem of_error {e : ε} {t : σ} (ran : x.run.run s = (.error e, t)) (h : stop e t) : Leads x s post stop := by
  unfold Leads
  rw [ran]
  exact ⟨nofun, fun _ same => Except.error.inj same ▸ h⟩

protected theorem run (x : ExceptT ε (StateM σ) α) (s : σ) :
    Leads x s (fun a t => x.run.run s = (.ok a, t)) fun e t => x.run.run s = (.error e, t) :=
  ⟨fun _ ended => Prod.ext ended rfl, fun _ ended => Prod.ext ended rfl⟩

theorem result {a : α} {t : σ} (hx : Leads x s post stop) (ran : x.run.run s = (.ok a, t)) : post a t := by
  have ended := hx.1
  rw [ran] at ended
  exact ended a rfl

theorem reason {e : ε} {t : σ} (hx : Leads x s post stop) (ran : x.run.run s = (.error e, t)) : stop e t := by
  have ended := hx.2
  rw [ran] at ended
  exact ended e rfl

theorem exists_run (hx : Leads x s post fun _ _ => False) : ∃ a t, x.run.run s = (.ok a, t) ∧ post a t := by
  obtain ⟨go, halt⟩ := hx
  rcases ran : x.run.run s with ⟨e | a, t⟩
  all_goals rw [ran] at go halt
  · exact (halt e rfl).elim
  · exact ⟨a, t, rfl, go a rfl⟩

protected theorem pure {a : α} (h : post a s) : Leads (pure a : ExceptT ε (StateM σ) α) s post stop :=
  ⟨fun _ same => Except.ok.inj same ▸ h, nofun⟩

protected theorem throw {e : ε} (h : stop e s) : Leads (throw e) s post stop :=
  ⟨nofun, fun _ same => Except.error.inj same ▸ h⟩

protected theorem get {post : σ → σ → Prop} (h : post s s) : Leads (get : ExceptT ε (StateM σ) σ) s post stop :=
  ⟨fun _ same => Except.ok.inj same ▸ h, nofun⟩

protected theorem set {t : σ} {post : PUnit → σ → Prop} (h : post ⟨⟩ t) :
    Leads (set t : ExceptT ε (StateM σ) PUnit) s post stop :=
  ⟨fun _ _ => h, nofun⟩

protected theorem modify {f : σ → σ} {post : PUnit → σ → Prop} (h : post ⟨⟩ (f s)) :
    Leads (modify f : ExceptT ε (StateM σ) PUnit) s post stop :=
  ⟨fun _ _ => h, nofun⟩

protected theorem bind (hx : Leads x s (fun a t => Leads (k a) t last stop) stop) : Leads (x >>= k) s last stop := by
  unfold Leads
  rw [ExceptT.run_bind, StateT.run_bind]
  obtain ⟨go, halt⟩ := hx
  rcases h : StateT.run (ExceptT.run x) s with ⟨e | a, t⟩
  · rw [h] at halt
    exact ⟨nofun, fun _ same => Except.error.inj same ▸ halt e rfl⟩
  · rw [h] at go
    exact go a rfl

theorem andThen (hx : Leads x s post stop) (go : ∀ a t, post a t → Leads (k a) t last stop) : Leads (x >>= k) s last stop :=
  .bind (hx.imp go)

protected theorem tryCatch {h : ε → ExceptT ε (StateM σ) α}
    (hx : Leads x s post fun e t => Leads (h e) t post stop) : Leads (tryCatch x h) s post stop := by
  unfold Leads
  rw [ExceptT.run_tryCatch, StateT.run_bind]
  obtain ⟨go, halt⟩ := hx
  rcases same : StateT.run (ExceptT.run x) s with ⟨e | a, t⟩
  · rw [same] at halt
    exact halt e rfl
  · rw [same] at go
    exact ⟨fun b h => Except.ok.inj h ▸ go a rfl, nofun⟩

protected theorem mapM {f : α → ExceptT ε (StateM σ) β} {xs : List α} {keep : σ → Prop}
    (each : ∀ a ∈ xs, ∀ t, keep t → Leads (f a) t (fun _ => keep) stop) (h : keep s) :
    Leads (xs.mapM f) s (fun _ => keep) stop := by
  induction xs generalizing s with
  | nil => exact .pure h
  | cons a xs ih =>
    rw [List.mapM_cons]
    refine (each a List.mem_cons_self s h).andThen fun b t ht => ?_
    exact (ih (fun c hc => each c (List.mem_cons_of_mem a hc)) ht).andThen fun _ u hu => .pure hu

end Leads

end LineScript
