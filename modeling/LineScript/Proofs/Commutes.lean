
import LineScript.Proofs.TrackedStatements

/-!
# What simple statements do not see

A change of the session commutes with a step if neither makes a difference to the other. Simple statements and conditions
commute with every change but of the variables, the outside and the debug mode.
-/

namespace LineScript.Run

variable {α : Type} {f : Session → Session}

/-- Making the change before the step or after it comes to the same. -/
def Commutes (f : Session → Session) (x : Run α) : Prop := ∀ s, x.outcome (f s) = ((x.outcome s).1, f (x.outcome s).2)

/-- Changes of what simple statements neither read nor write. -/
structure Neutral (f : Session → Session) : Prop where
  vars : ∀ s, (f s).vars = s.vars
  depot : ∀ s, (f s).depot = s.depot
  debug : ∀ s, (f s).debug = s.debug
  setVars : ∀ s v, f { s with vars := v } = { f s with vars := v }
  setDepot : ∀ s d, f { s with depot := d } = { f s with depot := d }

def Changed (f : Session → Session) (s t : Session) : Prop := t = f s

/-- A step commutes with a change if it keeps two runs side by side of which one has made the change. -/
theorem Commutes.of_tracks {x : Run α} (h : Tracks False (Changed f) x x) : Commutes f x := by
  intro s
  rcases h s (f s) rfl with ⟨off, -⟩ | ⟨same, changed⟩
  · exact off.elim
  · exact Prod.ext same changed

namespace Neutral

variable (hf : Neutral f)

include hf

theorem seesAll : SeesAll (Changed f) where
  vars := by rintro s _ rfl; exact hf.vars s
  debug := by rintro s _ rfl; exact hf.debug s
  depot := by rintro s _ rfl; exact hf.depot s
  setWorld := by rintro s _ rfl w; exact (hf.setDepot s _).symm

theorem sees : Sees (Changed f) := hf.seesAll.toSees

theorem assigns : Assigns (Changed f) := by
  rintro s _ rfl name v -
  rw [hf.vars]
  exact (hf.setVars s _).symm

end Neutral

end LineScript.Run
