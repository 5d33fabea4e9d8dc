
import LineScript.Proofs.Executed
import LineScript.Proofs.IndexFile
import LineScript.Proofs.PackageNetwork

/-!
# Steps of a run

What single steps of a run lead to.
-/

namespace LineScript.Run

variable {α : Type} {s : Session} {post : α → Session → Prop} {stop : Stop → Session → Prop} {keep : Session → Prop}
  {text : String}

theorem leads_session {post : Session → Session → Prop} (h : post s s) : Leads session s post stop := .get h

theorem leads_world {post : World → Session → Prop} (h : post s.depot.world s) : Leads world s post stop :=
  .bind (leads_session (.pure h))

theorem leads_check {r : Except Fault α} (go : ∀ a, r = .ok a → post a s)
    (halt : ∀ f, r = .error f → stop (.fault f) s) : Leads (check r) s post stop := by
  cases r with
  | error f => exact .throw (halt f rfl)
  | ok a => exact .pure (go a rfl)

theorem leads_say {post : Unit → Session → Prop} (h : post () (said text s)) : Leads (act (Act.say text)) s post stop :=
  .of_ok (outcome_say text s) h

theorem leads_act {x : Act α}
    (hx : Leads x s.depot.world (fun a w => post a { s with depot := { s.depot with world := w } })
      fun e w => stop e { s with depot := { s.depot with world := w } }) : Leads (act x) s post stop := by
  have ran : (act x).run.run s = _ := outcome_act x s
  unfold Leads
  rw [ran]
  exact hx

def asked (prompt : String) (rest : List Typed) (s : Session) : Session :=
  { s with
    depot := { s.depot with world := { s.depot.world with output := s.depot.world.output ++ prompt, input := rest } } }

theorem leads_ask (prompt : String) : Leads (act (Act.ask prompt)) s
      (fun line t => ∃ rest, s.depot.world.input = .line line :: rest ∧ t = asked prompt rest s)
      fun e t => s.depot.world.input = [] ∧ e = .fault .endOfInput ∧ t = asked prompt [] s ∨
        ∃ rest, s.depot.world.input = .interrupt :: rest ∧ e = .interrupted ∧ t = asked prompt rest s := by
  refine leads_act (Act.leads_ask (fun _ rest typed => ⟨rest, typed, rfl⟩) (fun none => .inl ⟨none, rfl, ?_⟩) fun rest typed => ?_)
  · rw [asked, ← none]
  · exact .inr ⟨rest, typed, rfl, rfl⟩

theorem leads_note {post : Unit → Session → Prop} (quiet : post () s) (shown : post () (said ("[DEBUG] " ++ text) s)) :
    Leads (note text) s post stop := by
  refine .bind (leads_session ?_)
  split
  · exact leads_say shown
  · exact .pure quiet

theorem leads_display {v : Value} {post : String → Session → Prop}
    (go : ∀ text, v.display s.depot.world.store = .ok text → post text s)
    (halt : ∀ f, v.display s.depot.world.store = .error f → stop (.fault f) s) : Leads (display v) s post stop := by
  have ran : (display v).run.run s = _ := outcome_display v s
  cases shown : v.display s.depot.world.store with
  | error f =>
    rw [shown] at ran
    exact .of_error ran (halt f shown)
  | ok text =>
    rw [shown] at ran
    exact .of_ok ran (go text shown)

theorem leads_reworded {x : Run α} (hx : Leads x s post fun _ => keep) (words : Fault → Fault) :
    Leads (recover x fun f => fail (words f)) s post fun _ => keep := by
  refine .tryCatch (hx.mono (fun _ _ => id) fun e t kept => ?_)
  cases e <;> exact .throw kept

theorem leads_recover {x : Run α} {h : Fault → Run α} (hx : Leads x s post (ByFault keep))
    (hh : ∀ f t, keep t → Leads (h f) t post stop) : Leads (recover x h) s post stop := by
  refine .tryCatch (hx.mono (fun _ _ => id) fun e t stopped => ?_)
  obtain ⟨f, rfl, kept⟩ := stopped.exists_fault
  exact hh f t kept

theorem leads_of_outcome {x : Run α} {r : Except Fault α} {t : Session}
    (ran : x.outcome s = (r.mapError .fault, t)) (go : ∀ a, r = .ok a → post a t) (halt : ∀ f, r = .error f → keep t) :
    Leads x s post (ByFault keep) := by
  cases r with
  | error f => exact .of_error ran (halt f rfl)
  | ok a => exact .of_ok ran (go a rfl)

theorem leads_readText (path : List Char) :
    Leads (act (Act.readText path)) s (fun text t => t = s ∧ Pkg.textOf (s.depot.world.disk.read path) = .ok text)
      (ByFault fun t => t = s ∧ ∃ f, Pkg.textOf (s.depot.world.disk.read path) = .error f) := by
  have ran := outcome_act (Act.readText path) s
  have reads := Pkg.reads_readText path s.depot.world
  unfold Act.Reads at reads
  rw [reads] at ran
  exact leads_of_outcome ran (fun _ read => ⟨rfl, read⟩) fun f failed => ⟨rfl, f, failed⟩

end LineScript.Run
