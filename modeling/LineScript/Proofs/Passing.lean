
import LineScript.Proofs.Scope
import LineScript.Proofs.Scanning

/-!
# How arguments are passed

The body of a function should start with each parameter standing for what its argument, a name or a text between double
quotes, stood for where the call was made. But commas divide arguments also inside quotes, a name made of digits is taken for
a number, and parameters are bound one after the other among the variables of the caller. Nothing else is in the way.
-/

namespace LineScript.Run

open Text Line
open List hiding splitOn

variable {env caller : Env} {a : PlainArg} {done pairs : List (String × PlainArg)} {t x : List Char}
  {ts : List (List Char)} {c : Char} {v : Value} {s : Session}

/-- An argument that needs no computing: a name, or a text between double quotes. -/
inductive PlainArg where
  | name (x : List Char)
  | literal (t : List Char)

namespace PlainArg

def text : PlainArg → List Char
  | .name x => x
  | .literal t => '"' :: (t ++ ['"'])

def value (env : Env) : PlainArg → Option Value
  | .name x => env.find? (String.ofList x)
  | .literal t => some (.ofText t)

def number? : PlainArg → Option Int
  | .name x =>
    match Number.readInt 10 x with
    | .value n => some n
    | _ => none
  | .literal _ => none

def reading (env : Env) (a : PlainArg) : Option Value :=
  match a.number? with
  | some n => some (.int n)
  | none => a.value env

/-- A name is not empty, has no white space, quote mark, comma or point in it, and stands for something. -/
def Given (env : Env) : PlainArg → Prop
  | .name x =>
    x ≠ [] ∧ (∀ c ∈ x, isBlank c = false ∧ isMark c = false ∧ c ≠ ',' ∧ c ≠ '.') ∧
      (env.find? (String.ofList x)).isSome
  | .literal _ => True

end PlainArg

def callText (name : String) : List PlainArg → List Char
  | [] => name.toList ++ ['_']
  | a :: args => name.toList ++ ['_'] ++ ' ' :: joinWith [',', ' '] ((a :: args).map PlainArg.text)

def passed (env : Env) : List (String × PlainArg) → Env
  | [] => env
  | (p, a) :: rest =>
    match a.reading env with
    | some v => passed (env.set p v) rest
    | none => passed env rest

/-! ## The text of a call -/

structure Solid (t : List Char) : Prop where
  nonempty : t ≠ []
  first : ∀ c, t.head? = some c → isBlank c = false
  last : ∀ c, t.getLast? = some c → isBlank c = false

theorem Solid.strip (h : Solid t) : strip t = t := trim_eq_self h.first h.last

theorem Solid.strip_append (h : Solid t) {lead : List Char} (blank : ∀ c ∈ lead, isBlank c) :
    Text.strip (lead ++ t) = t := by
  have dropped : (lead ++ t).dropWhile isBlank = t.dropWhile isBlank := dropWhile_append_of_pos blank
  calc Text.strip (lead ++ t) = trimRight isBlank ((lead ++ t).dropWhile isBlank) := rfl
    _ = Text.strip t := by rw [dropped]; rfl
    _ = t := h.strip

theorem Solid.append {a b : List Char} (ha : Solid a) (hb : Solid b) (m : List Char) : Solid (a ++ m ++ b) where
  nonempty h := ha.nonempty (append_eq_nil_iff.mp (append_eq_nil_iff.mp h).1).1
  first c h := by
    cases a with
    | nil => exact absurd rfl ha.nonempty
    | cons d a => exact ha.first c h
  last c h := by
    have final := getLast?_eq_some_getLast hb.nonempty
    rw [getLast?_append, final] at h
    exact hb.last c (final.trans h)

theorem solid_joinWith {sep : List Char} (solid : ∀ t ∈ ts, Solid t) (h : ts ≠ []) : Solid (joinWith sep ts) := by
  fun_induction joinWith sep ts with
  | case1 => exact absurd rfl h
  | case2 t => exact solid t mem_cons_self
  | case3 t ts hts ih =>
    exact (solid t mem_cons_self).append (ih (fun u hu => solid u (mem_cons_of_mem _ hu)) hts) sep

theorem PlainArg.solid_text (given : a.Given env) : Solid a.text := by
  cases a with
  | name x =>
    obtain ⟨nonempty, plain, _⟩ := given
    exact ⟨nonempty, fun c h => (plain c (mem_of_mem_head? h)).1,
      fun c h => (plain c (mem_of_mem_getLast? h)).1⟩
  | literal t =>
    refine ⟨cons_ne_nil _ _, fun c h => ?_, fun c h => ?_⟩
    · obtain rfl : '"' = c := Option.some.inj h
      decide
    · have final : ('"' :: (t ++ ['"'])).getLast? = some '"' := by
        rw [← cons_append, getLast?_concat]
      obtain rfl : '"' = c := Option.some.inj (final.symm.trans h)
      decide

theorem splitOn_joinWith (solid : ∀ t ∈ ts, Solid t) (free : ∀ t ∈ ts, ',' ∉ t) (h : ts ≠ []) (lead : List Char)
    (blank : ∀ c ∈ lead, isBlank c) (leadFree : ',' ∉ lead) :
    (splitOn [','] (lead ++ joinWith [',', ' '] ts)).map Text.strip = ts := by
  -- after a comma there is a space, so the texts that follow have something in front of them
  induction ts generalizing lead with
  | nil => exact absurd rfl h
  | cons t ts ih =>
    have whole : ',' ∉ lead ++ t := by
      rw [mem_append, not_or]
      exact ⟨leadFree, free t mem_cons_self⟩
    have trimmed := (solid t mem_cons_self).strip_append blank
    cases ts with
    | nil =>
      unfold joinWith splitOn
      rw [splitGo_eq_singleton whole]
      exact congrArg (· :: []) trimmed
    | cons u ts =>
      have rest := ih (fun t ht => solid t (mem_cons_of_mem _ ht)) (fun t ht => free t (mem_cons_of_mem _ ht))
        (cons_ne_nil _ _) [' '] (forall_mem_singleton.mpr (by decide)) (by decide)
      have shape : lead ++ joinWith [',', ' '] (t :: u :: ts) =
          (lead ++ t) ++ ',' :: ([' '] ++ joinWith [',', ' '] (u :: ts)) := by
        simp [joinWith]
      rw [shape, splitOn, splitGo_append whole, map_cons, rest]
      exact congrArg (· :: u :: ts) trimmed

theorem length_le_count_joinWith (ts : List (List Char)) : ts.length ≤ (joinWith [',', ' '] ts).count ',' + 1 := by
  fun_induction joinWith [',', ' '] ts with
  | case1 => simp
  | case2 t => simp
  | case3 t ts _ ih =>
    rw [count_append, count_append, length_cons]
    have two : [',', ' '].count ',' = 1 := by decide
    omega

/-- A comma in one of the texts makes one text too many. -/
theorem length_lt_count_joinWith (ht : t ∈ ts) (comma : ',' ∈ t) : ts.length < (joinWith [',', ' '] ts).count ',' + 1 := by
  have found := count_pos_iff.mpr comma
  fun_induction joinWith [',', ' '] ts with
  | case1 => cases ht
  | case2 u =>
    obtain rfl := mem_singleton.mp ht
    rw [length_singleton]
    omega
  | case3 u ts _ ih =>
    have two : [',', ' '].count ',' = 1 := by decide
    rw [count_append, count_append, length_cons]
    rcases mem_cons.mp ht with rfl | ht
    · have rest := length_le_count_joinWith ts
      omega
    · have rest := ih ht
      omega

/-- Characters of names are among the first 128, where they can be looked at one by one. -/
theorem nameChar_forall {P : Char → Prop} (h : ∀ n < 128, Line.isNameChar (Char.ofNat n) → P (Char.ofNat n))
    (hc : Line.isNameChar c) : P c := by
  have low : c.toNat < 128 := by
    delta Line.isNameChar Char.isAlphanum Char.isAlpha Char.isUpper Char.isLower Char.isDigit at hc
    simp only [Bool.or_eq_true, Bool.and_eq_true, decide_eq_true_eq] at hc
    rcases hc with ((hc | hc) | hc) | rfl
    case inr => decide
    all_goals exact Nat.lt_of_le_of_lt hc.2 (by decide)
  have self := h c.toNat low
  rw [Char.ofNat_toNat] at self
  exact self hc

theorem isBlank_of_isNameChar (h : Line.isNameChar c) : isBlank c = false :=
  nameChar_forall (P := fun c => isBlank c = false) (by decide) h

theorem isWordForm_of_isValidName {name : List Char} (valid : isValidName name) : isWordForm name := by
  unfold isValidName at valid
  rw [Bool.and_eq_true, Bool.and_eq_true] at valid
  exact valid.1.1

theorem solid_of_isWordForm {name : List Char} (h : isWordForm name) : Solid (name ++ ['_']) ∧ ' ' ∉ name ++ ['_'] := by
  cases name with
  | nil => cases h
  | cons c cs =>
    unfold isWordForm at h
    rw [Bool.and_eq_true, Bool.or_eq_true, Bool.and_eq_true, decide_eq_true_eq] at h
    obtain ⟨hc, hcs⟩ := h
    have start : Line.isNameChar c := by
      unfold Line.isNameStart at hc
      unfold Line.isNameChar Char.isAlphanum
      rw [Bool.or_assoc, Bool.or_left_comm, hc, Bool.or_true]
    have rest : ∀ d ∈ cs, Line.isNameChar d ∨ d = '\n' := by
      intro d hd
      rcases hcs with named | ⟨final, named⟩
      · exact Or.inl (all_eq_true.mp named d hd)
      · obtain ⟨front, rfl⟩ := getLast?_eq_some_iff.mp final
        rw [dropLast_concat] at named
        rcases mem_append.mp hd with hd | hd
        · exact Or.inl (all_eq_true.mp named d hd)
        · exact Or.inr (mem_singleton.mp hd)
    refine ⟨⟨cons_ne_nil _ _, fun d hd => ?_, fun d hd => ?_⟩, fun space => ?_⟩
    · obtain rfl : c = d := Option.some.inj hd
      exact isBlank_of_isNameChar start
    · rw [getLast?_concat] at hd
      obtain rfl : '_' = d := Option.some.inj hd
      decide
    · rcases mem_append.mp space with space | space
      · rcases mem_cons.mp space with rfl | space
        · exact absurd start (by decide)
        · rcases rest ' ' space with named | ended
          · exact absurd named (by decide)
          · exact absurd ended (by decide)
      · exact absurd (mem_singleton.mp space) (by decide)

section

variable {name : String} {args : List PlainArg} {env : Env} (valid : isWordForm name.toList)
  (given : ∀ a ∈ args, a.Given env)

include valid given

theorem splitCall_callText :
    splitCall (callText name args) =
      (name.toList ++ ['_'], if args = [] then [] else
        (splitOn [','] (joinWith [',', ' '] (args.map PlainArg.text))).map strip) := by
  obtain ⟨solid, spaceless⟩ := solid_of_isWordForm valid
  cases args with
  | nil =>
    unfold splitCall callText
    rw [cut?_eq_none spaceless]
    exact congrArg (·, []) solid.strip
  | cons a args =>
    have joined : Solid (joinWith [',', ' '] ((a :: args).map PlainArg.text)) :=
      solid_joinWith (forall_mem_map.mpr fun b hb => PlainArg.solid_text (given b hb)) (cons_ne_nil _ _)
    unfold splitCall callText commaParts
    rw [cut?_append spaceless, if_neg (cons_ne_nil _ _)]
    dsimp only
    rw [joined.strip, if_neg]
    simpa using joined.nonempty

theorem splitCall_of_free (free : ∀ a ∈ args, ',' ∉ a.text) :
    (splitCall (callText name args)).2 = args.map PlainArg.text := by
  rw [splitCall_callText valid given]
  by_cases empty : args = []
  · rw [empty]
    rfl
  · rw [if_neg empty]
    refine splitOn_joinWith ?_ ?_ ?_ [] ?_ ?_
    · exact forall_mem_map.mpr fun b hb => PlainArg.solid_text (given b hb)
    · exact forall_mem_map.mpr free
    · simpa using empty
    · simp
    · simp

theorem length_splitCall_of_comma (ha : a ∈ args) (comma : ',' ∈ a.text) :
    args.length < (splitCall (callText name args)).2.length := by
  have more := length_lt_count_joinWith (mem_map_of_mem (f := PlainArg.text) ha) comma
  rw [length_map] at more
  rw [splitCall_callText valid given, if_neg (ne_nil_of_mem ha), length_map, splitOn, length_splitGo]
  exact more

end

/-! ## Binding one after the other -/

theorem numeral?_name (h : '.' ∉ x) : numeral? x = .ok ((PlainArg.name x).number?.map .int) := by
  have pointless : x.contains '.' = false := by simpa using h
  unfold numeral?
  rw [pointless]
  unfold PlainArg.number? Value.toInt Value.ofText Value.readIntValue
  dsimp only
  rw [String.toList_ofList]
  cases Number.readInt 10 x <;> rfl

theorem isQuoted_name (h : ∀ c ∈ x, isMark c = false) : isQuoted x = false := by
  cases x with
  | nil => rfl
  | cons c x =>
    unfold isQuoted
    rw [head?_cons, getLast?_eq_some_getLast (cons_ne_nil c x)]
    dsimp only
    rw [h c mem_cons_self, Bool.false_and]

theorem outcome_argument (given : a.Given env) (h : a.reading s.vars = some v) :
    (argument a.text).outcome s = (.ok v, s) := by
  unfold argument
  rw [(PlainArg.solid_text given).strip]
  cases a with
  | literal t =>
    have quoted : isQuoted ('"' :: (t ++ ['"'])) := by
      unfold isQuoted
      rw [head?_cons, ← cons_append, getLast?_concat]
      decide
    have between : Line.inner ('"' :: (t ++ ['"'])) = t := by
      unfold Line.inner
      rw [drop_one, tail_cons, dropLast_concat]
    obtain rfl : Value.ofText t = v := Option.some.inj h
    dsimp only [PlainArg.text]
    rw [if_pos quoted, between]
    rfl
  | name x =>
    obtain ⟨_, plain, _⟩ := given
    dsimp only [PlainArg.text]
    rw [isQuoted_name fun c hc => (plain c hc).2.1, numeral?_name fun hc => (plain _ hc).2.2.2 rfl]
    unfold PlainArg.reading at h
    cases number : (PlainArg.name x).number? with
    | some n =>
      rw [number] at h
      obtain rfl : Value.int n = v := Option.some.inj h
      rfl
    | none =>
      rw [number] at h
      have bound : s.vars.find? (String.ofList x) = some v := h
      have settled : (check (.ok (none : Option Value))).outcome s = (.ok none, s) := rfl
      dsimp only [Option.map_none]
      rw [if_neg Bool.false_ne_true, bind_ok settled, bind_ok (outcome_session s), bound]
      rfl

theorem PlainArg.exists_reading (given : a.Given caller) (known : Known caller env) : ∃ v, a.reading env = some v := by
  unfold reading
  split
  · exact ⟨_, rfl⟩
  · cases a with
    | name x => exact Option.isSome_iff_exists.mp (known _ given.2.2)
    | literal t => exact ⟨_, rfl⟩

theorem outcome_bindFrom (given : ∀ b ∈ pairs, b.2.Given caller) (i : Nat) (known : Known caller s.vars) :
    (bindFrom i (pairs.map fun b => (b.1, b.2.text))).outcome s = (.ok (), { s with vars := passed s.vars pairs }) := by
  induction pairs generalizing i s with
  | nil => rfl
  | cons b pairs ih =>
    obtain ⟨p, a⟩ := b
    have first : a.Given caller := given _ mem_cons_self
    obtain ⟨v, hv⟩ := PlainArg.exists_reading first known
    have bound : (recover (do setVariable p (← argument a.text)) fun f => do
        Act.say ("DEBUG: Error evaluating argument: " ++ f.message)
        broken (.argument i (String.ofList a.text) f.message)).outcome s =
          (.ok (), { s with vars := s.vars.set p v }) := by
      refine outcome_recover_ok ?_ _
      rw [bind_ok (outcome_argument first hv)]
      rfl
    have step : passed s.vars ((p, a) :: pairs) = passed (s.vars.set p v) pairs := by
      rw [passed, hv]
    rw [map_cons, bindFrom, bind_ok bound, step]
    exact ih (fun b hb => given b (mem_cons_of_mem _ hb)) (i + 1) (known.set p v)

/-! ## What reaches the body -/

/-- The argument of the later parameter is not the earlier parameter, or both arguments stand for the same. A name
that is taken for a number is not looked up, so it is not affected. -/
def Clear (caller : Env) (earlier later : String × PlainArg) : Prop :=
  later.2 = .name earlier.1.toList → later.2.number? = none → earlier.2.value caller = later.2.value caller

def PlainArg.Numeric (caller : Env) (a : PlainArg) : Prop := ∀ n, a.number? = some n → a.value caller = some (.int n)

/-- The variables of the caller, but with the parameters `done` bound as they should be. -/
structure Bound (caller : Env) (done : List (String × PlainArg)) (env : Env) : Prop where
  known : Known caller env
  new : ∀ b ∈ done, env.find? b.1 = b.2.value caller
  old : ∀ x, x ∉ done.map Prod.fst → env.find? x = caller.find? x

theorem Bound.set (h : Bound caller done env) {p : String} (fresh : p ∉ done.map Prod.fst)
    (hv : a.value caller = some v) :
    Bound caller (done ++ [(p, a)]) (env.set p v) where
  known := h.known.set p v
  new b hb := by
    rcases mem_append.mp hb with hb | hb
    · have other : p ≠ b.1 := fun e => fresh (e ▸ mem_map_of_mem hb)
      rw [Table.find?_set_of_ne env other]
      exact h.new b hb
    · obtain rfl := mem_singleton.mp hb
      rw [Table.find?_set_self]
      exact hv.symm
  old x hx := by
    rw [map_append, mem_append, not_or] at hx
    have other : p ≠ x := fun e => hx.2 (mem_singleton.mpr e.symm)
    rw [Table.find?_set_of_ne env other]
    exact h.old x hx.1

/-- When the turn of an argument comes, it is taken for what it stood for unless a number or a parameter that is
bound already stands in its place. -/
theorem Bound.reading_eq_iff (h : Bound caller done env) (p : String) (a : PlainArg) :
    a.reading env = a.value caller ↔ a.Numeric caller ∧ ∀ b ∈ done, Clear caller b (p, a) := by
  unfold PlainArg.reading PlainArg.Numeric Clear
  cases number : a.number? with
  | some n =>
    constructor
    · intro same
      exact ⟨fun m hm => Option.some.inj hm ▸ same.symm, fun b _ _ none => absurd none (Option.some_ne_none n)⟩
    · rintro ⟨numeric, _⟩
      exact (numeric n rfl).symm
  | none =>
    cases a with
    | literal t =>
      exact ⟨fun _ => ⟨fun _ hn => absurd hn.symm (Option.some_ne_none _), nofun⟩, fun _ => rfl⟩
    | name x =>
      constructor
      · intro same
        refine ⟨fun _ hn => absurd hn.symm (Option.some_ne_none _), fun b hb e _ => ?_⟩
        obtain rfl : x = b.1.toList := PlainArg.name.inj e
        rw [← same, ← h.new b hb]
        exact congrArg env.find? String.ofList_toList.symm
      · rintro ⟨_, clear⟩
        -- a name that is bound already is read as that parameter, any other as in the caller
        by_cases hx : String.ofList x ∈ done.map Prod.fst
        · obtain ⟨b, hb, hbx⟩ := mem_map.mp hx
          have e : x = b.1.toList := by rw [hbx, String.toList_ofList]
          rw [← clear b hb (congrArg _ e) rfl, ← h.new b hb, hbx]
          rfl
        · exact h.old _ hx

theorem find?_passed_of_not_mem {x : String} (h : x ∉ pairs.map Prod.fst) (env : Env) :
    (passed env pairs).find? x = env.find? x := by
  induction pairs generalizing env with
  | nil => rfl
  | cons b pairs ih =>
    rw [map_cons, mem_cons, not_or] at h
    unfold passed
    split
    · rw [ih h.2, Table.find?_set_of_ne env fun e => h.1 e.symm]
    · exact ih h.2 env

/-- The parameters stand for what they should exactly if no argument was lost to a number or to an earlier
parameter. -/
theorem Bound.passed_iff (h : Bound caller done env) (given : ∀ c ∈ pairs, c.2.Given caller)
    (distinct : ((done ++ pairs).map Prod.fst).Nodup) : (∀ c ∈ pairs, (passed env pairs).find? c.1 = c.2.value caller) ↔
      (∀ c ∈ pairs, c.2.Numeric caller ∧ ∀ b ∈ done, Clear caller b c) ∧ pairs.Pairwise (Clear caller) := by
  induction pairs generalizing done env with
  | nil => exact ⟨fun _ => ⟨fun _ hc => absurd hc not_mem_nil, .nil⟩, fun _ _ hc => absurd hc not_mem_nil⟩
  | cons c pairs ih =>
    obtain ⟨p, a⟩ := c
    have later : ∀ c ∈ pairs, c.2.Given caller := fun c hc => given c (mem_cons_of_mem _ hc)
    obtain ⟨v, hv⟩ := PlainArg.exists_reading (given _ mem_cons_self) h.known
    have step : passed env ((p, a) :: pairs) = passed (env.set p v) pairs := by
      rw [passed, hv]
    have shift : done ++ (p, a) :: pairs = (done ++ [(p, a)]) ++ pairs := by simp
    obtain ⟨front, tail, apart⟩ := nodup_append.mp (map_append ▸ distinct)
    have fresh : p ∉ done.map Prod.fst := fun hp => apart p hp p mem_cons_self rfl
    have kept : (passed (env.set p v) pairs).find? p = some v := by
      rw [find?_passed_of_not_mem (nodup_cons.mp tail).1, Table.find?_set_self]
    -- the first parameter is right if and only if its argument was read right, and then the rest goes on from there
    have first := h.reading_eq_iff p a
    rw [hv] at first
    have rest := fun right : a.value caller = some v => ih (h.set fresh right) later (shift ▸ distinct)
    rw [step, forall_mem_cons, forall_mem_cons, pairwise_cons, kept]
    constructor
    · rintro ⟨right, others⟩
      obtain ⟨clear, ordered⟩ := (rest right.symm).mp others
      refine ⟨⟨first.mp right, fun c hc => ⟨(clear c hc).1, fun b hb => ?_⟩⟩, fun c hc => ?_, ordered⟩
      · exact (clear c hc).2 b (mem_append_left _ hb)
      · exact (clear c hc).2 (p, a) (mem_append_right _ mem_cons_self)
    · rintro ⟨⟨here, clear⟩, clearLater, ordered⟩
      have right := first.mpr here
      refine ⟨right, (rest right.symm).mpr ⟨fun c hc => ⟨(clear c hc).1, fun b hb => ?_⟩, ordered⟩⟩
      rcases mem_append.mp hb with hb | hb
      · exact (clear c hc).2 b hb
      · obtain rfl := mem_singleton.mp hb
        exact clearLater c hc

section

variable {s : Session} {name : String} {f : Func} {args : List PlainArg}

theorem splitCall_name (valid : isWordForm name.toList) (given : ∀ a ∈ args, a.Given s.vars) :
    endsWith (splitCall (callText name args)).1 ['_'] ∧
      String.ofList (splitCall (callText name args)).1.dropLast = name := by
  rw [splitCall_callText valid given, dropLast_concat, String.ofList_toList]
  refine ⟨?_, rfl⟩
  unfold endsWith
  rw [isSuffixOf_iff_suffix]
  exact suffix_append _ _

/-- Without commas in the arguments, the body starts with the parameters bound one after the other. -/
theorem enters_of_free (valid : isWordForm name.toList) (found : s.functions.find? name = some f)
    (arity : args.length = f.params.length) (given : ∀ a ∈ args, a.Given s.vars) (free : ∀ a ∈ args, ',' ∉ a.text) :
    Enters s (callText name args) f { s with vars := passed s.vars (f.params.zip args) } := by
  obtain ⟨marked, named⟩ := splitCall_name valid given
  have parts := splitCall_of_free valid given free
  refine ⟨marked, named.symm ▸ found, ?_, ?_⟩
  · rw [parts, length_map, arity]
  · have pairs : f.params.zip (args.map PlainArg.text) = (f.params.zip args).map fun b => (b.1, b.2.text) :=
      zip_map_right
    rw [parts, pairs]
    exact outcome_bindFrom (fun b hb => given b.2 (of_mem_zip hb).2) 1 fun _ h => h

/-- A comma in an argument makes the call fail for the number of its arguments, and nothing happens. -/
theorem outcome_call_of_comma (run : Runner) (importing : Bool) (valid : isWordForm name.toList)
    (found : s.functions.find? name = some f) (arity : args.length = f.params.length)
    (given : ∀ a ∈ args, a.Given s.vars) (ha : a ∈ args) (comma : ',' ∈ a.text) :
    ∃ n > f.params.length, (call run (callText name args) importing).outcome s =
      (.error (.fault (.runtime (.arity name f.params.length n))), s) := by
  obtain ⟨marked, named⟩ := splitCall_name valid given
  have more := length_splitCall_of_comma valid given ha comma
  rw [arity] at more
  refine ⟨_, more, ?_⟩
  rw [outcome_call_of_found run importing marked (named.symm ▸ found), if_pos (Nat.ne_of_gt more), named]

end

/-- How plain arguments are passed to distinct parameters. Each parameter stands for what its argument stood for with the caller
if and only if no argument has a comma, each name that is taken for a number stands for that number, and each name of an
earlier parameter for the same as the argument of that parameter. -/
theorem call_passes_values_iff (run : Runner) (importing : Bool) {s : Session} {name : String} {f : Func}
    {args : List PlainArg} (valid : isValidName name.toList = true) (found : s.functions.find? name = some f)
    (distinct : f.params.Nodup) (arity : args.length = f.params.length) (given : ∀ a ∈ args, a.Given s.vars) :
    ((∃ a ∈ args, ',' ∈ a.text) → ∃ n > f.params.length, (call run (callText name args) importing).outcome s =
      (.error (.fault (.runtime (.arity name f.params.length n))), s)) ∧
    ((∀ a ∈ args, ',' ∉ a.text) → (call run (callText name args) importing).outcome s =
      bodyOutcome run importing f s.vars { s with vars := passed s.vars (f.params.zip args) }) ∧
    ((∃ t, Enters s (callText name args) f t ∧ ∀ c ∈ f.params.zip args, t.vars.find? c.1 = c.2.value s.vars) ↔
      (∀ a ∈ args, ',' ∉ a.text ∧ a.Numeric s.vars) ∧ (f.params.zip args).Pairwise (Clear s.vars)) := by
  have word := isWordForm_of_isValidName valid
  have enters := fun free => enters_of_free word found arity given free
  have fails := fun a (ha : a ∈ args) comma => outcome_call_of_comma run importing word found arity given ha comma
  have start : Bound s.vars [] s.vars := ⟨fun _ h => h, fun _ hb => absurd hb not_mem_nil, fun _ _ => rfl⟩
  have names : (f.params.zip args).map Prod.fst = f.params := map_fst_zip (Nat.le_of_eq arity.symm)
  have right := start.passed_iff (fun c hc => given c.2 (of_mem_zip hc).2)
    (by rw [nil_append, names]; exact distinct)
  have mem_zip : ∀ a ∈ args, ∃ c ∈ f.params.zip args, c.2 = a := by
    intro a ha
    rw [← map_snd_zip (Nat.le_of_eq arity)] at ha
    exact mem_map.mp ha
  refine ⟨fun ⟨a, ha, comma⟩ => fails a ha comma, fun free => outcome_call_of_enters run importing (enters free), ?_⟩
  constructor
  · rintro ⟨t, entered, values⟩
    -- the body is entered, so the number of arguments was right and no comma was in the way
    have free : ∀ a ∈ args, ',' ∉ a.text := by
      intro a ha comma
      have more := length_splitCall_of_comma word given ha comma
      rw [entered.arity, arity] at more
      exact Nat.lt_irrefl _ more
    obtain rfl : t = _ := congrArg Prod.snd (entered.bound.symm.trans (enters free).bound)
    obtain ⟨numeric, ordered⟩ := right.mp values
    refine ⟨fun a ha => ⟨free a ha, ?_⟩, ordered⟩
    obtain ⟨c, hc, rfl⟩ := mem_zip a ha
    exact (numeric c hc).1
  · rintro ⟨plain, ordered⟩
    refine ⟨_, enters fun a ha => (plain a ha).1, right.mpr ⟨fun c hc => ⟨?_, ?_⟩, ordered⟩⟩
    · exact (plain c.2 (of_mem_zip hc).2).2
    · exact fun _ hb => absurd hb not_mem_nil

def pairShower : Func := ⟨["a", "b"], [⟨1, "print a".toList⟩, ⟨1, "print b".toList⟩]⟩

def pairSession : Session :=
  { vars := [("a", .int 1), ("b", .int 2)]
    functions := [("show", pairShower)] }

/-- The call `show_ a, b` passes what `a` and `b` stand for; the call `show_ b, a` does not. -/
theorem call_passes_values_iff_pair :
    (∃ t, Enters pairSession (callText "show" [.name ['a'], .name ['b']]) pairShower t ∧
      ∀ c ∈ pairShower.params.zip [PlainArg.name ['a'], .name ['b']], t.vars.find? c.1 = c.2.value pairSession.vars) ∧
    ¬ ∃ t, Enters pairSession (callText "show" [.name ['b'], .name ['a']]) pairShower t ∧
      ∀ c ∈ pairShower.params.zip [PlainArg.name ['b'], .name ['a']], t.vars.find? c.1 = c.2.value pairSession.vars := by
  have valid : isValidName "show".toList = true := by decide +kernel
  have a : (PlainArg.name ['a']).Given pairSession.vars := ⟨by decide, forall_mem_singleton.mpr (by decide), rfl⟩
  have b : (PlainArg.name ['b']).Given pairSession.vars := ⟨by decide, forall_mem_singleton.mpr (by decide), rfl⟩
  have noNumber : (PlainArg.name ['a']).number? = none ∧ (PlainArg.name ['b']).number? = none := by decide +kernel
  have straight := (call_passes_values_iff line false valid (f := pairShower) rfl (by decide) rfl
    (forall_mem_cons.mpr ⟨a, forall_mem_singleton.mpr b⟩)).2.2
  have swapped := (call_passes_values_iff line false valid (f := pairShower) rfl (by decide) rfl
    (forall_mem_cons.mpr ⟨b, forall_mem_singleton.mpr a⟩)).2.2
  refine ⟨straight.mpr ⟨?_, ?_⟩, fun passed => ?_⟩
  · simp [PlainArg.text, PlainArg.Numeric, noNumber]
  · simp [pairShower, Clear]
  · have clear := (swapped.mp passed).2
    have same := (pairwise_cons.mp clear).1 _ mem_cons_self rfl noNumber.1
    cases same

/-- What the call `show_ b, a` shows: the value of `b` twice. -/
theorem output_swapped_arguments :
    ((call line "show_ b, a".toList false).outcome pairSession).2.depot.world.output = "2\n2\n" := by
  decide +kernel

end LineScript.Run
