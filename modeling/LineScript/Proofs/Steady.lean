
import LineScript.Package.Depot
import LineScript.Proofs.DiskPlaces

/-!
# The outside does not jump

Reading and writing files, decoding texts, reading JSON and writing values as text all can fail, but never by a jump:
jumps are made by scripts only.
-/

namespace LineScript

variable {α β : Type}

def Steady (x : Except Fault α) : Prop := ∀ target, x ≠ .error (.jump target)

namespace Steady

protected theorem ok (a : α) : Steady (.ok a : Except Fault α) := nofun

protected theorem primitive (k : Kind) (text : String) : Steady (.error (.primitive k text) : Except Fault α) :=
  nofun

theorem of_eq {x : Except Fault α} (h : Steady x) {f : Fault} (same : x = .error f) :
    Steady (.error f : Except Fault β) := by
  intro target jump
  cases jump
  exact h target same

protected theorem bind {x : Except Fault α} {k : α → Except Fault β} (hx : Steady x) (hk : ∀ a, Steady (k a)) :
    Steady (x >>= k) := by
  cases x with
  | ok a => exact hk a
  | error f => exact hx.of_eq rfl

protected theorem mapM {g : α → Except Fault β} (hg : ∀ a, Steady (g a)) (xs : List α) : Steady (xs.mapM g) := by
  induction xs with
  | nil => exact .ok _
  | cons a xs ih =>
    rw [List.mapM_cons]
    exact .bind (hg a) fun _ => .bind ih fun _ => .ok _

/-! ## Texts of values -/

protected theorem intString (n : Int) : Steady (Value.intString n) := by
  unfold Value.intString
  split
  · exact .ok _
  · exact .primitive _ _

protected theorem renderFrom (store : Store) (depth : Nat) (seen : List Nat) (v : Value) :
    Steady (Value.renderFrom store depth seen v) := by
  induction depth generalizing seen v with
  | zero => exact .primitive _ _
  | succ depth ih =>
    cases v with
    | bool b => cases b <;> exact .ok _
    | int n => exact .intString n
    | list ref =>
      unfold Value.renderFrom
      dsimp only
      split
      · exact .ok _
      · exact .bind (.mapM (ih _) _) fun _ => .ok _
    | tuple items =>
      refine .bind (.mapM (ih _) _) fun parts => ?_
      split
      · exact .ok _
      · exact .ok _
    | record members =>
      exact .bind (.mapM (fun member => .bind (ih _ _) fun _ => .ok _) _) fun _ => .ok _
    | _ => exact .ok _

protected theorem display (store : Store) (v : Value) : Steady (v.display store) := by
  unfold Value.display
  split
  · exact .ok _
  · exact .renderFrom store _ [] v

/-! ## Files -/

protected theorem stat (d : Disk) (p : List Char) : Steady (d.stat p) := by
  unfold Disk.stat
  split
  · exact .primitive _ _
  · split
    · exact .ok _
    all_goals exact .primitive _ _

protected theorem read (d : Disk) (p : List Char) : Steady (d.read p) := by
  refine .bind (.stat d p) fun node => ?_
  split
  · exact .ok _
  · exact .primitive _ _

protected theorem makeFolder (d : Disk) (p : List Char) : Steady (d.makeFolder p) := by
  unfold Disk.makeFolder
  split
  · exact .primitive _ _
  · dsimp only
    split
    · exact .primitive _ _
    · exact .ok _
    all_goals exact .primitive _ _

protected theorem ensureFolder (d : Disk) (p : List Char) : Steady (d.ensureFolder p) := by
  intro target same
  unfold Disk.ensureFolder at same
  split at same
  · cases same
  · rename_i f ended
    have failed : (d.ensureFolders p).2 = some f := congrArg Prod.snd ended
    obtain ⟨e, q, stopped⟩ := Disk.exists_makeFolder_of_fault failed
    exact Steady.makeFolder e q target (stopped.trans (congrArg Except.error (Except.error.inj same)))

protected theorem decodeUtf8 (bs : List UInt8) : Steady (Value.decodeUtf8 bs) := by
  unfold Value.decodeUtf8
  split
  · exact .ok _
  · exact .primitive _ _

protected theorem ofText (s : List Char) : Steady (Json.ofText s) := by
  unfold Json.ofText
  split
  · exact .ok _
  · rename_i e _
    cases e <;> exact .primitive _ _

end Steady

/-! ## Acts -/

def Act.Steady (x : Act α) : Prop := ∀ w target, (x.run.run w).1 ≠ .error (.fault (.jump target))

namespace Act.Steady

protected theorem pure (a : α) : Act.Steady (pure a) := nofun

protected theorem get : Act.Steady (get : Act World) := nofun

protected theorem set (w : World) : Act.Steady (set w : Act PUnit) := nofun

protected theorem check {x : Except Fault α} (hx : LineScript.Steady x) : Act.Steady (Act.check x) := by
  intro w target h
  cases x with
  | ok a => cases h
  | error f => exact hx target (congrArg Except.error (Stop.fault.inj (Except.error.inj h)))

protected theorem bind {x : Act α} {k : α → Act β} (hx : Act.Steady x) (hk : ∀ a, Act.Steady (k a)) :
    Act.Steady (x >>= k) := by
  intro w target
  have hw := hx w target
  rw [ExceptT.run_bind, StateT.run_bind]
  rcases h : StateT.run (ExceptT.run x) w with ⟨r, v⟩
  rw [h] at hw
  cases r with
  | ok a => exact hk a v target
  | error e => exact fun same => hw (congrArg Except.error (Except.error.inj same))

protected theorem recover {x : Act α} {h : Fault → Act α} (hx : Act.Steady x)
    (hh : ∀ f, (∀ target, f ≠ .jump target) → Act.Steady (h f)) : Act.Steady (Act.recover x h) := by
  intro w target
  have hw := hx w
  unfold Act.recover
  rw [ExceptT.run_tryCatch, StateT.run_bind]
  rcases hr : StateT.run (ExceptT.run x) w with ⟨r, v⟩
  rw [hr] at hw
  rcases r with (f | _ | _ | _) | a
  · exact hh f (fun n same => hw n (by rw [same])) v target
  all_goals exact nofun

protected theorem touch : Act.Steady Pkg.touch := by
  have alter : Act.Steady (Act.alter (·.ensureFolder Pkg.folder)) :=
    .bind .get fun w => .bind (.check (.ensureFolder _ _)) fun _ => .set _
  have read : Act.Steady (Act.readText Pkg.indexFile) :=
    .bind (.bind .get fun w => .check (.read w.disk _)) fun _ => .bind (.check (.decodeUtf8 _)) fun _ => .pure _
  have load : Act.Steady Pkg.loadIndex := by
    refine .recover (.bind read fun text => .check (.ofText text)) fun f noJump => ?_
    split
    · exact .pure _
    · exact .check fun target same => noJump target (Except.error.inj same)
  refine .bind alter fun _ => .bind .get fun w => ?_
  cases found : w.disk.read Pkg.indexFile with
  | ok bs =>
    dsimp only
    split
    · exact .bind (.check (.decodeUtf8 bs)) fun _ => .pure _
    · exact .bind load fun _ => .pure _
  | error f =>
    dsimp only
    split
    · exact .pure _
    · exact .check ((Steady.read w.disk _).of_eq found)

end Act.Steady

end LineScript
