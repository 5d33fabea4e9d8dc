import LineScript.Proofs.FloatText
import LineScript.Proofs.PackageNetwork
import LineScript.Update
import Mathlib.Data.String.Basic

/-!
# Which releases are announced

A release is announced if its version is greater than that of the program, 2.2.0, as a text. So the first number that differs
decides, but a number of several digits counts as less than one digit if its first digit is less (`announces_iff`).
-/

namespace LineScript.Version

open Number List

/-- Three numbers with dots between them. -/
def dotted (a b c : Nat) : List Char := decimalText a ++ '.' :: (decimalText b ++ '.' :: decimalText c)

/-- A number has several digits, and the first of them is less than `k`. -/
def Overlooked (k n : Nat) : Prop := 10 ≤ n ∧ ∃ d, (decimalText n).head? = some d ∧ d < k.digitChar

variable {a b c k n : Nat} {d : Char} {s t x y : List Char}

/-- A dot comes before every digit, so the first number that differs decides. -/
theorem append_dot_lt_iff (digits : ∀ c ∈ x, '.' < c) (digits' : ∀ c ∈ y, '.' < c) :
    x ++ '.' :: s < y ++ '.' :: t ↔ x < y ∨ x = y ∧ s < t := by
  induction x generalizing y with
  | nil =>
    cases y with
    | nil => simp
    | cons d y => simp [cons_lt_cons_iff, digits' d mem_cons_self]
  | cons c x ih =>
    cases y with
    | nil =>
      have later := digits c mem_cons_self
      simp [cons_lt_cons_iff, later.not_gt, later.ne']
    | cons d y =>
      have rest := ih (fun c hc => digits c (mem_cons_of_mem _ hc)) fun c hc => digits' c (mem_cons_of_mem _ hc)
      rw [cons_append, cons_append, cons_lt_cons_iff, cons_lt_cons_iff, rest, List.cons.injEq]
      tauto

theorem dot_lt_of_mem_decimalText (h : d ∈ decimalText n) : '.' < d :=
  digit_forall (P := fun d => '.' < d) (by decide) (Expr.isDigit_of_mem_decimalText h)

theorem decimalText_lt_iff (small : k < 10) : decimalText k < decimalText n ↔ k < n ∧ ¬ Overlooked k n := by
  have one (n) (small : n < 10) : decimalText n = [n.digitChar] := Nat.toDigits_of_lt_base small
  by_cases few : n < 10
  · have each : ∀ k < 10, ∀ n < 10, [k.digitChar] < [n.digitChar] ↔ k < n := by decide
    rw [one k small, one n few, each k small n few]
    exact ⟨fun less => ⟨less, fun long => Nat.not_lt.mpr long.1 few⟩, And.left⟩
  · have long : ¬ (decimalText n).length ≤ 1 := by
      unfold decimalText
      rw [Nat.length_toDigits_le_iff (by decide) (by decide)]
      exact few
    have less : k < n := by omega
    unfold Overlooked
    rw [one k small]
    rcases shape : decimalText n with _ | ⟨h, _ | ⟨d, ds⟩⟩
    · simp [shape] at long
    · simp [shape] at long
    · simp [cons_lt_cons_iff, less, Nat.not_lt.mp few, le_iff_lt_or_eq]

theorem not_overlooked_zero : ¬ Overlooked 0 n := by
  rintro ⟨-, d, first, less⟩
  have digit := Expr.isDigit_of_mem_decimalText (mem_of_head? first)
  exact digit_forall (P := fun d => ¬ d < '0') (by decide) digit less

theorem dotted_lt_iff : dotted 2 2 0 < dotted a b c ↔
    (2 < a ∨ a = 2 ∧ (2 < b ∨ b = 2 ∧ 0 < c)) ∧ ¬ (Overlooked 2 a ∨ a = 2 ∧ Overlooked 2 b) := by
  have equal (k n) : decimalText k = decimalText n ↔ k = n := by
    refine ⟨fun same => ?_, congrArg _⟩
    rw [← Expr.ofDigits_decimalText k, same, Expr.ofDigits_decimalText]
  unfold dotted
  rw [append_dot_lt_iff (fun _ => dot_lt_of_mem_decimalText) fun _ => dot_lt_of_mem_decimalText,
    append_dot_lt_iff (fun _ => dot_lt_of_mem_decimalText) fun _ => dot_lt_of_mem_decimalText,
    decimalText_lt_iff (by decide), decimalText_lt_iff (by decide), decimalText_lt_iff (by decide), equal, equal]
  have large (n) (long : Overlooked 2 n) : 10 ≤ n := long.1
  have := large a
  have := large b
  have := @not_overlooked_zero c
  grind

theorem span_decimalText (n : Nat) (ended : ∀ x, s.head? = some x → Text.isDecimal x = false) :
    (decimalText n ++ s).takeWhile Text.isDecimal = decimalText n ∧ (decimalText n ++ s).dropWhile Text.isDecimal = s ∧
      (decimalText n).isEmpty = false := by
  have digits : ∀ d ∈ decimalText n, Text.isDecimal d := fun _ h =>
    digit_forall (P := fun d => Text.isDecimal d) (by decide +kernel) (Expr.isDigit_of_mem_decimalText h)
  have stop : s.takeWhile Text.isDecimal = [] ∧ s.dropWhile Text.isDecimal = s := by
    cases s with
    | nil => exact ⟨rfl, rfl⟩
    | cons x s => simp [ended x rfl]
  rw [takeWhile_append_of_pos digits, dropWhile_append_of_pos digits, stop.1, stop.2, append_nil]
  exact ⟨rfl, rfl, isEmpty_eq_false_iff.mpr Nat.toDigits_ne_nil⟩

theorem numbers?_dot (k n : Nat) (s : List Char) :
    numbers? (k + 2) (decimalText n ++ '.' :: s) = (numbers? (k + 1) s).map fun more => decimalText n ++ '.' :: more := by
  obtain ⟨digits, rest, filled⟩ := @span_decimalText ('.' :: s) n (by rintro _ ⟨⟩; decide)
  rw [numbers?, digits, rest, filled]
  rfl

theorem core?_dotted {letter suffix : List Char} (optional : letter = [] ∨ letter = ['v'])
    (ended : ∀ x, suffix.head? = some x → Text.isDecimal x = false) :
    core? (letter ++ (dotted a b c ++ suffix)) = some (dotted a b c) := by
  obtain ⟨digits, -, filled⟩ := span_decimalText c ended
  have numbers : numbers? 3 (dotted a b c ++ suffix) = some (dotted a b c) := by
    rw [dotted, append_assoc, cons_append, append_assoc, cons_append, numbers?_dot, numbers?_dot, numbers?, digits, filled]
    rfl
  rcases optional with rfl | rfl
  · obtain ⟨d, ds, shape, digit⟩ := Expr.exists_decimalText a
    have other : d ≠ 'v' := digit_forall (P := fun d => d ≠ 'v') (by decide) digit
    rw [nil_append, core?, numbers]
    intro rest same
    rw [dotted, shape] at same
    exact other (head_eq_of_cons_eq same)
  · exact numbers

end LineScript.Version

namespace LineScript.Update

variable {w v : World} {system : System} {address name tag : String}

/-! ## What is shown besides -/

theorem always_body (address : String) (h : w.Shown v) : Always (body address) v w.Shown := by
  refine .bind (.bind (.modify (.bind (.get ?_))))
  dsimp only
  cases v.remote.find? (String.ofList (Address.key address.toList)) with
  | none => exact .pure (.pure h)
  | some reply =>
    cases reply with
    | page status text => exact .pure (.pure h)
    | failure message => exact .pure (.throw h)

theorem always_runInstaller (h : w.Shown v) : Always (runInstaller system address name) v w.Shown := by
  refine .bind (.modify ((always_body address (h.append _)).andThen fun text v h => ?_))
  refine .bind (Act.leads_alter (fun e _ => .bind (.modify ?_)) fun _ _ => h)
  have said := World.Shown.append (v := { v with disk := e }) h
  cases system with
  | windows => exact .modify (said _)
  | linux => exact .bind (.modify (.modify (said _)))

theorem always_offer (n : Nat) (h : w.Shown v) : Always (offer system address name n) v w.Shown := by
  induction n generalizing v with
  | zero => exact .pure h
  | succ n ih =>
    refine .bind (Act.leads_ask (fun line rest _ => ?_) (fun _ => h.append _) fun rest _ => h.append question)
    dsimp only
    split
    · exact always_runInstaller (h.append question)
    · split
      · exact .modify ((h.append question).append _)
      · exact .bind (.modify (ih ((h.append question).append _)))

/-! ## The announcement -/

def announcement (tag : String) : String := "\nGuython update available: " ++ tag ++ " (you have v" ++ "2.2.0" ++ ")" ++ "\n"

theorem announcement_append_ne (tag more : String) : announcement tag ++ more ≠ "" := by
  unfold announcement
  generalize "\nGuython update available: " ++ tag ++ " (you have v" ++ "2.2.0" ++ ")" = text
  intro empty
  exact absurd (congrArg String.length empty) (by simp)

/-- The user is told of the release with this tag. -/
def Announces (w : World) (tag : String) : Prop :=
  ∃ more, (run.run.run w).2.output = w.output ++ announcement tag ++ more

/-- The latest release for a system has a tag. -/
def Latest (w : World) (system : System) (tag : String) : Prop :=
  ∃ status text release, w.remote.find? (String.ofList (Address.key system.address.toList)) = some (.page status text) ∧
    Json.ofText text.toList = .ok release ∧ release.get? "tag_name" = .ok (some (.str tag))

/-- The user is told of a release if it is newer, and nothing is shown if it is not. -/
theorem always_run {core : String} (supported : System.ofName? w.platform = some system) (latest : Latest w system tag)
    (read : Version.core tag = .ok core) :
    Always run w fun v =>
      if "2.2.0" < core then ∃ more, v.output = w.output ++ announcement tag ++ more else v.output = w.output := by
  obtain ⟨status, text, release, served, parsed, tagged⟩ := latest
  have known : tagName release = .ok tag := by
    rw [tagName, tagged]
    rfl
  have current : Version.core Version.current = .ok "2.2.0" := by decide +kernel
  refine .bind (.get ?_)
  rw [supported, current]
  refine .bind (.pure (.tryCatch (.bind (.bind (.bind (.modify (.bind (.get ?_))))))))
  dsimp only
  rw [served]
  refine .pure (.pure ?_)
  rw [parsed]
  refine .bind (.pure ?_)
  rw [known]
  refine .bind (.pure ?_)
  rw [read]
  refine .bind (.pure ?_)
  split
  · let start : World := { w with output := w.output ++ announcement tag }
    refine .bind (.modify (Leads.mono ((?_ : ∀ v, start.Shown v → Always _ v start.Shown) _ ⟨"", String.append_empty.symm⟩)
      (fun _ v told => told) fun e v told => ?_))
    · intro v h
      refine .bind (Act.leads_check (fun files _ => .bind (Act.leads_check (fun found _ => ?_) fun _ _ => h)) fun _ _ => h)
      rcases found with _ | ⟨address, name⟩
      · exact .modify (h.append _)
      · dsimp only
        split
        · exact .bind (Act.leads_check (fun text _ => .bind (.get (always_offer _ h))) fun _ _ => h)
        · exact .modify (h.append _)
    · cases e with
      | fault f => exact .modify (told.append _)
      | _ => exact .throw told
  · exact .pure rfl

/-- The tag of a release: perhaps a letter, three numbers with dots between them, and what follows them. -/
def Tagged (tag : String) (a b c : Nat) : Prop :=
  ∃ letter suffix, tag.toList = letter ++ (Version.dotted a b c ++ suffix) ∧ (letter = [] ∨ letter = ['v']) ∧
    ∀ x, suffix.head? = some x → Text.isDecimal x = false

/-- **A newer release is announced, unless the number that makes it newer starts with a one and has more digits.** -/
theorem announces_iff {a b c : Nat} (supported : System.ofName? w.platform = some system) (latest : Latest w system tag)
    (tagged : Tagged tag a b c) :
    Announces w tag ↔ (2 < a ∨ a = 2 ∧ (2 < b ∨ b = 2 ∧ 0 < c)) ∧
      ¬ (Version.Overlooked 2 a ∨ a = 2 ∧ Version.Overlooked 2 b) := by
  obtain ⟨letter, suffix, shape, optional, ended⟩ := tagged
  have read : Version.core tag = .ok (String.ofList (Version.dotted a b c)) := by
    rw [Version.core, shape, Version.core?_dotted optional ended]
  have shown := (always_run supported latest read).ends
  have order : "2.2.0" < String.ofList (Version.dotted a b c) ↔ Version.dotted 2 2 0 < Version.dotted a b c := by
    have current : "2.2.0" = String.ofList (Version.dotted 2 2 0) := by decide +kernel
    rw [current, String.lt_iff, String.toList_ofList, String.toList_ofList]
  rw [← Version.dotted_lt_iff, ← order]
  split at shown
  · rename_i newer
    exact iff_of_true shown newer
  · rename_i older
    refine iff_of_false ?_ older
    rintro ⟨more, told⟩
    rw [shown, String.append_assoc] at told
    exact announcement_append_ne tag more (String.append_eq_left_iff.mp told.symm)

/-- The latest release has this tag. -/
def releasing (tag : String) : World where
  remote := [(System.linux.address, .page 200 ("\x7b\"tag_name\": \"" ++ tag ++ "\"\x7d"))]

theorem announces_iff_patch : Announces (releasing "v2.2.1-rc") "v2.2.1-rc" := by
  have latest : Latest (releasing "v2.2.1-rc") .linux "v2.2.1-rc" :=
    ⟨200, _, .obj [("tag_name", .str "v2.2.1-rc")], by rfl, by rfl, by rfl⟩
  have tagged : Tagged "v2.2.1-rc" 2 2 1 := by
    refine ⟨['v'], "-rc".toList, by decide, .inr rfl, ?_⟩
    rintro _ ⟨⟩
    decide
  have short : ¬ Version.Overlooked 2 2 := fun long => absurd long.1 (by decide)
  exact (announces_iff rfl latest tagged).mpr ⟨by decide, fun long => long.elim short fun long => short long.2⟩

/-- Ten is more than two, but a one is less than a two. -/
theorem later_release_unannounced :
    Latest (releasing "v2.10.0") .linux "v2.10.0" ∧ Tagged "v2.10.0" 2 10 0 ∧ ¬ Announces (releasing "v2.10.0") "v2.10.0" := by
  refine ⟨⟨200, _, .obj [("tag_name", .str "v2.10.0")], by rfl, by rfl, by rfl⟩,
    ⟨['v'], [], by decide, .inr rfl, by rintro _ ⟨⟩⟩, ?_⟩
  rintro ⟨more, told⟩
  have silent : (run.run.run (releasing "v2.10.0")).2.output = (releasing "v2.10.0").output := by decide +kernel
  rw [silent, String.append_assoc] at told
  exact announcement_append_ne _ more (String.append_eq_left_iff.mp told.symm)

end LineScript.Update
