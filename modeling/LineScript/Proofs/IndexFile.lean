
import LineScript.Package.Depot

/-!
# Looking at the index

A session loads the index when it is made, and everything that could use packages looks at it again. What either gives is
told by reading the file (`indexOf`, `lookOf`). Of the world, looking changes the disk at most, where it makes the folder of
packages.
-/

namespace LineScript

/-! ## Reading -/

def Act.Reads {α : Type} (x : Act α) (w : World) (r : Except Fault α) : Prop := x.run.run w = (r.mapError .fault, w)

namespace Act.Reads

variable {α β : Type} {x : Act α} {w : World} {r : Except Fault α}

protected theorem pure (a : α) : Reads (pure a) w (.ok a) := rfl

protected theorem check (r : Except Fault α) : Reads (Act.check r) w r := by
  cases r <;> rfl

protected theorem bind {k : α → Act β} {r' : α → Except Fault β} (hx : Reads x w r) (hk : ∀ a, Reads (k a) w (r' a)) :
    Reads (x >>= k) w (r >>= r') := by
  unfold Reads at hx ⊢
  rw [ExceptT.run_bind, StateT.run_bind, hx]
  cases r with
  | error f => rfl
  | ok a => exact hk a

protected theorem recover {h : Fault → Act α} {r' : Fault → Except Fault α} (hx : Reads x w r)
    (hh : ∀ f, Reads (h f) w (r' f)) : Reads (Act.recover x h) w (tryCatch r r') := by
  unfold Reads Act.recover at *
  rw [ExceptT.run_tryCatch, StateT.run_bind, hx]
  cases r with
  | error f => exact hh f
  | ok a => rfl

end Act.Reads

theorem Act.run_bind_ok {α β : Type} {x : Act α} {k : α → Act β} {w w' : World} {a : α}
    (h : x.run.run w = (.ok a, w')) : (x >>= k).run.run w = (k a).run.run w' := by
  rw [ExceptT.run_bind, StateT.run_bind, h]
  rfl

namespace Pkg

variable {w : World} {text : List Char} {bytes : Text.Bytes} {f : Fault} {e : Disk}

def textOf (bytes : Except Fault Text.Bytes) : Except Fault (List Char) := do
  return Text.universalNewlines (← Value.decodeUtf8 (← bytes))

def indexOf (bytes : Except Fault Text.Bytes) : Except Fault Json :=
  tryCatch (textOf bytes >>= Json.ofText) fun f =>
    if f.isKind .fileNotFound || f.isKind .json then .ok (.obj []) else .error f

theorem reads_readText (p : List Char) (w : World) : Act.Reads (Act.readText p) w (textOf (w.disk.read p)) := by
  have bytes : Act.Reads (Act.readBytes p) w (w.disk.read p) := .check _
  exact bytes.bind fun bs => .bind (.check _) fun cs => .pure _

theorem reads_loadIndex (w : World) : Act.Reads loadIndex w (indexOf (w.disk.read indexFile)) := by
  refine ((reads_readText indexFile w).bind fun cs => .check _).recover fun f => ?_
  split
  · exact .pure _
  · exact .check (.error f)

theorem textOf_decoded (decoded : Value.decodeUtf8 bytes = .ok text) :
    textOf (.ok bytes) = .ok (Text.universalNewlines text) := by
  change (Value.decodeUtf8 bytes >>= fun cs => .ok (Text.universalNewlines cs)) = _
  rw [decoded]
  rfl

theorem indexOf_decoded (decoded : Value.decodeUtf8 bytes = .ok text) :
    indexOf (.ok bytes) = tryCatch (Json.ofText (Text.universalNewlines text)) fun f =>
      if f.isKind .fileNotFound || f.isKind .json then .ok (.obj []) else .error f := by
  unfold indexOf
  rw [textOf_decoded decoded]
  rfl

/-- A text that lacks at most the form of an index is one, if an empty one. -/
theorem exists_indexOf (decoded : Value.decodeUtf8 bytes = .ok text)
    (lacking : ∀ f, Json.ofText (Text.universalNewlines text) = .error f → f.isKind .json) :
    ∃ index, indexOf (.ok bytes) = .ok index := by
  rw [indexOf_decoded decoded]
  cases parsed : Json.ofText (Text.universalNewlines text) with
  | ok index => exact ⟨index, rfl⟩
  | error f =>
    refine ⟨.obj [], ?_⟩
    change (if f.isKind .fileNotFound || f.isKind .json then _ else _) = _
    rw [lacking f parsed, Bool.or_true, if_pos rfl]

/-! ## Loading and looking -/

theorem run_alter (f : Disk → Except Fault Disk) (w : World) :
    (Act.alter f).run.run w =
      (((f w.disk).map fun _ => ()).mapError .fault, { w with disk := (f w.disk).toOption.getD w.disk }) := by
  change (Act.check (f w.disk) >>= fun disk => set { w with disk }).run.run w = _
  cases f w.disk <;> rfl

theorem run_init (made : w.disk.ensureFolder folder = .ok e) :
    init.run.run w = ((indexOf (e.read indexFile)).mapError .fault, { w with disk := e }) := by
  unfold init
  rw [ExceptT.run_bind, StateT.run_bind, run_alter, made]
  exact reads_loadIndex { w with disk := e }

theorem run_init_error (failed : w.disk.ensureFolder folder = .error f) : (init.run.run w).1 = .error (.fault f) := by
  unfold init
  rw [ExceptT.run_bind, StateT.run_bind, run_alter, failed]
  rfl

/-- What looking at the index gives, from what reading its file gives. -/
def lookOf (bytes : Except Fault Text.Bytes) : Except Fault Unit :=
  match bytes with
  | .ok bs => if bs.length ≤ shortIndex then (Value.decodeUtf8 bs).map fun _ => () else (indexOf (.ok bs)).map fun _ => ()
  | .error f => if f.isKind .fileNotFound then .ok () else .error f

theorem run_touch (made : w.disk.ensureFolder folder = .ok e) :
    touch.run.run w = ((lookOf (e.read indexFile)).mapError .fault, { w with disk := e }) := by
  have altered : (Act.alter (·.ensureFolder folder)).run.run w = (.ok (), { w with disk := e }) := by
    rw [run_alter, made]
    rfl
  unfold touch
  rw [Act.run_bind_ok altered, Act.run_bind_ok (x := get) rfl]
  have loaded : loadIndex.run.run { w with disk := e } = _ := reads_loadIndex { w with disk := e }
  cases found : e.read indexFile with
  | ok bs =>
    unfold lookOf
    dsimp only
    split
    · cases Value.decodeUtf8 bs <;> rfl
    · rw [ExceptT.run_bind, StateT.run_bind, loaded, found]
      cases indexOf (.ok bs) <;> rfl
  | error f =>
    unfold lookOf
    dsimp only
    split <;> rfl

theorem run_touch_error (failed : w.disk.ensureFolder folder = .error f) : touch.run.run w = (.error (.fault f), w) := by
  unfold touch
  rw [ExceptT.run_bind, StateT.run_bind, run_alter, failed]
  rfl

/-- What looking at the index of a disk gives, and the disk it leaves. -/
def look (d : Disk) : Except Fault Unit × Disk :=
  match d.ensureFolder folder with
  | .ok e => (lookOf (e.read indexFile), e)
  | .error f => (.error f, d)

theorem run_touch_eq (w : World) :
    touch.run.run w = ((look w.disk).1.mapError .fault, { w with disk := (look w.disk).2 }) := by
  unfold look
  cases made : w.disk.ensureFolder folder with
  | error f => exact run_touch_error made
  | ok e => exact run_touch made

theorem exists_disk_touch (w : World) : ∃ disk, (touch.run.run w).2 = { w with disk } :=
  ⟨(look w.disk).2, by rw [run_touch_eq]⟩

end Pkg

end LineScript
