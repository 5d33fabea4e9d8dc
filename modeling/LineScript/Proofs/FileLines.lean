
import LineScript.Script.Files
import LineScript.Proofs.TextSearch
import Mathlib.Data.Bool.AllAny

/-!
# Lines that write and read files

The modifiers of a line that writes or reads a file are deleted wherever they stand. A line that writes a quoted text writes
what is left of the text to what is left of the name (`writeCommand_writeCode`), and a line that reads a file whose name has
no modifier in it shows the file (`readCommand_readCode`).
-/

namespace LineScript.Run

open Text Line
open List hiding contains

variable {s word name mode : List Char} {c : Char} {flag : String} {n : Nat}

/-! ## Deleting modifiers -/

def writeFlags : List String := ["-add", "-ign", "-create"]

def readFlags : List String := ["-ign", "-lines", "-size", "-exists"]

/-- Modifiers that can be deleted without harm to what stands on either side of a character. -/
def Apart (c : Char) (flags : List String) : Prop := ∀ flag ∈ flags, flag.toList ≠ [] ∧ c ∉ flag.toList

theorem Apart.tail {flags : List String} (apart : Apart c (flag :: flags)) : Apart c flags :=
  fun other h => apart other (mem_cons_of_mem flag h)

theorem removeAll_cons (flag : String) (flags : List String) (s : List Char) :
    removeAll (flag :: flags) s = removeAll flags (replace flag.toList [] s) := rfl

section

variable {c : Char} {flags : List String} (apart : Apart c flags)

include apart

theorem removeAll_append (a b : List Char) : removeAll flags (a ++ c :: b) = removeAll flags a ++ c :: removeAll flags b := by
  induction flags generalizing a b with
  | nil => rfl
  | cons flag flags ih =>
    obtain ⟨filled, free⟩ := apart flag mem_cons_self
    rw [removeAll_cons, replace_append filled free]
    exact ih apart.tail _ _

theorem removeAll_sublist (s : List Char) : (removeAll flags s).Sublist s := by
  induction flags generalizing s with
  | nil => exact Sublist.refl s
  | cons flag flags ih =>
    exact (ih apart.tail _).trans (replace_sublist (apart flag mem_cons_self).1 s)

theorem removeAll_eq_self (free : ∀ flag ∈ flags, Command.holds s flag = false) : removeAll flags s = s := by
  induction flags with
  | nil => rfl
  | cons flag flags ih =>
    rw [removeAll_cons, replace_eq_self (apart flag mem_cons_self).1 (free flag mem_cons_self)]
    exact ih apart.tail fun other h => free other (mem_cons_of_mem flag h)

/-- Where a modifier stands, at least its length goes. -/
theorem length_removeAll_add_le {m : Nat} (long : ∀ flag ∈ flags, m ≤ flag.toList.length)
    (found : ∃ flag ∈ flags, Command.holds s flag) : (removeAll flags s).length + m ≤ s.length := by
  induction flags with
  | nil =>
    obtain ⟨flag, h, -⟩ := found
    cases h
  | cons flag flags ih =>
    obtain ⟨filled, -⟩ := apart flag mem_cons_self
    rw [removeAll_cons]
    cases here : Command.holds s flag with
    | true =>
      have gone := length_replace_add_le filled here
      have rest := (removeAll_sublist apart.tail (replace flag.toList [] s)).length_le
      have least := long flag mem_cons_self
      omega
    | false =>
      -- the first modifier is not in the text, so the text is searched for the others
      rw [replace_eq_self filled here]
      refine ih apart.tail (fun other h => long other (mem_cons_of_mem flag h)) ?_
      obtain ⟨other, h, holds⟩ := found
      rcases mem_cons.mp h with rfl | h
      · rw [here] at holds
        cases holds
      · exact ⟨other, h, holds⟩

end

/-! ### Permissions -/

theorem permissionsHere?_of_ne (other : c ≠ '-') (s : List Char) : permissionsHere? (c :: s) = none := by
  have none : startsWith (c :: s) permissionsFlag = false := by
    refine Bool.eq_false_iff.mpr fun starts => other ?_
    have front := isPrefixOf_iff_prefix.mp starts
    exact (cons_prefix_cons.mp front).1.symm
  unfold permissionsHere?
  rw [none]
  rfl

theorem permissionsHere?_eq_some (here : permissionsHere? s = some (mode, n)) :
    permissionsFlag <+: s ∧ permissionsFlag.length ≤ n ∧ n ≤ s.length := by
  unfold permissionsHere? at here
  split at here
  · rename_i starts
    obtain ⟨rest, rfl⟩ := isPrefixOf_iff_prefix.mp starts
    dsimp only at here
    rw [drop_left] at here
    split at here
    · cases here
    · obtain ⟨-, rfl⟩ := Prod.mk.inj (Option.some.inj here)
      have blanks := (List.takeWhile_prefix (l := rest) isBlank).length_le
      have digits := (List.takeWhile_prefix (l := rest.drop (rest.takeWhile isBlank).length) isDecimal).length_le
      rw [length_drop] at digits
      refine ⟨prefix_append _ _, by omega, ?_⟩
      rw [length_append]
      omega
  · cases here

theorem takePermissions_skip (k : Nat) (s : List Char) : takePermissions k s = takePermissions 0 (s.drop k) := by
  induction s generalizing k with
  | nil => cases k <;> rfl
  | cons c s ih =>
    cases k with
    | zero => rfl
    | succ k => exact ih k

theorem takePermissions_miss (none : permissionsHere? (c :: s) = none) :
    takePermissions 0 (c :: s) = ((takePermissions 0 s).1, c :: (takePermissions 0 s).2) := by
  simp only [takePermissions, none]

theorem takePermissions_hit (here : permissionsHere? s = some (mode, n)) :
    takePermissions 0 s = (some mode, (takePermissions 0 (s.drop n)).2) := by
  obtain ⟨-, long, short⟩ := permissionsHere?_eq_some here
  have positive : 0 < n := Nat.lt_of_lt_of_le (by decide) long
  cases s with
  | nil => exact absurd positive (Nat.not_lt.mpr short)
  | cons c s =>
    obtain ⟨k, rfl⟩ := Nat.exists_eq_add_one_of_ne_zero (Nat.pos_iff_ne_zero.mp positive)
    simp only [takePermissions, here, Nat.add_sub_cancel, drop_succ_cons]
    rw [takePermissions_skip]

/-- The scan for modes: one is passed with its flag, elsewhere one character is passed. -/
theorem permissions_induction {motive : List Char → Prop} (nil : motive [])
    (hit : ∀ s mode n, permissionsHere? s = some (mode, n) → motive (s.drop n) → motive s)
    (miss : ∀ c s, permissionsHere? (c :: s) = none → motive s → motive (c :: s)) (s : List Char) : motive s := by
  induction h : s.length using Nat.strongRecOn generalizing s with
  | ind n ih =>
    subst h
    cases s with
    | nil => exact nil
    | cons c s =>
      cases here : permissionsHere? (c :: s) with
      | none => exact miss c s here (ih s.length (by simp) s rfl)
      | some found =>
        obtain ⟨-, long, short⟩ := permissionsHere?_eq_some here
        have positive : 0 < found.2 := Nat.lt_of_lt_of_le (by decide) long
        exact hit _ found.1 found.2 here (ih _ (by rw [length_drop]; omega) _ rfl)

theorem takePermissions_of_none (none : (takePermissions 0 s).1 = none) : takePermissions 0 s = (.none, s) := by
  induction s using permissions_induction with
  | nil => rfl
  | hit s mode n here _ =>
    rw [takePermissions_hit here] at none
    cases none
  | miss c s here ih =>
    rw [takePermissions_miss here] at none ⊢
    rw [ih none]

theorem takePermissions_sublist (s : List Char) : (takePermissions 0 s).2.Sublist s := by
  induction s using permissions_induction with
  | nil => exact Sublist.refl []
  | hit s mode n here ih =>
    rw [takePermissions_hit here]
    exact ih.trans (drop_sublist n s)
  | miss c s here ih =>
    rw [takePermissions_miss here]
    exact ih.cons_cons c

theorem takePermissions_of_some (some : (takePermissions 0 s).1 ≠ none) :
    contains s permissionsFlag ∧ (takePermissions 0 s).2.length + permissionsFlag.length ≤ s.length := by
  induction s using permissions_induction with
  | nil => exact absurd rfl some
  | hit s mode n here _ =>
    obtain ⟨flag, long, short⟩ := permissionsHere?_eq_some here
    have part := (takePermissions_sublist (s.drop n)).length_le
    rw [length_drop] at part
    rw [takePermissions_hit here]
    exact ⟨contains_iff_occurs.mpr flag.isInfix, by dsimp only; omega⟩
  | miss c s here ih =>
    rw [takePermissions_miss here] at some ⊢
    obtain ⟨inside, less⟩ := ih some
    rw [contains_iff_occurs] at inside ⊢
    refine ⟨inside.trans (suffix_cons c s).isInfix, ?_⟩
    rw [length_cons, length_cons]
    omega

theorem takeWhile_stop {p : Char → Bool} (stop : p c = false) (a b : List Char) :
    (a ++ c :: b).takeWhile p = a.takeWhile p := by
  induction a with
  | nil => exact takeWhile_cons_of_neg (by simp [stop])
  | cons d a ih => simp only [cons_append, takeWhile_cons, ih]

/-- A flag and its mode do not reach beyond a quotation mark. -/
theorem permissionsHere?_append (a b : List Char) : permissionsHere? (a ++ '"' :: b) = permissionsHere? a := by
  have starts : startsWith (a ++ '"' :: b) permissionsFlag = startsWith a permissionsFlag := by
    rw [Bool.eq_iff_iff]
    show permissionsFlag.isPrefixOf _ ↔ permissionsFlag.isPrefixOf _
    rw [List.isPrefixOf_iff_prefix, isPrefixOf_iff_prefix]
    exact prefix_append_iff (by decide) a b
  unfold permissionsHere?
  rw [starts]
  cases here : startsWith a permissionsFlag with
  | false => rfl
  | true =>
    obtain ⟨rest, rfl⟩ := isPrefixOf_iff_prefix.mp here
    have blanks := (List.takeWhile_prefix (l := rest) isBlank).length_le
    have solid : isBlank '"' = false := by decide
    have other : isDecimal '"' = false := by decide
    dsimp only
    rw [append_assoc, drop_left, drop_left, takeWhile_stop solid, drop_append_of_le_length blanks,
      takeWhile_stop other]

theorem takePermissions_append (a b : List Char) : takePermissions 0 (a ++ '"' :: b) =
      ((takePermissions 0 a).1.or (takePermissions 0 b).1, (takePermissions 0 a).2 ++ '"' :: (takePermissions 0 b).2) := by
  induction a using permissions_induction with
  | nil => exact takePermissions_miss (permissionsHere?_of_ne (by decide) b)
  | hit a mode n here ih =>
    obtain ⟨-, -, short⟩ := permissionsHere?_eq_some here
    rw [takePermissions_hit here, takePermissions_hit ((permissionsHere?_append a b).trans here),
      drop_append_of_le_length short, ih]
    rfl
  | miss c a none ih =>
    have across : permissionsHere? (c :: (a ++ '"' :: b)) = .none := (permissionsHere?_append (c :: a) b).trans none
    rw [takePermissions_miss none, cons_append, takePermissions_miss across, ih]
    rfl

theorem takePermissions_passes {a : List Char} (plain : '-' ∉ a) (s : List Char) :
    (takePermissions 0 (a ++ s)).1 = (takePermissions 0 s).1 := by
  induction a with
  | nil => rfl
  | cons c a ih =>
    obtain ⟨other, rest⟩ := ne_and_not_mem_of_not_mem_cons plain
    rw [cons_append, takePermissions_miss (permissionsHere?_of_ne other.symm _)]
    exact ih rest

/-- A word that ends in the flag gives no mode: what follows the blank after it is no number. -/
theorem permissionsHere?_word (solid : ∀ x ∈ word, isBlank x = false) : permissionsHere? (word ++ [' ']) = none := by
  unfold permissionsHere?
  split
  · rename_i starts
    have inside : permissionsFlag <+: word := (prefix_append_iff (by decide) word []).mp (List.isPrefixOf_iff_prefix.mp starts)
    obtain ⟨rest, rfl⟩ := inside
    dsimp only
    rw [append_assoc, drop_left]
    cases rest with
    | nil => rfl
    | cons x rest =>
      rw [cons_append, takeWhile_cons_of_neg (by simp [solid])]
      rfl
  · rfl

theorem takePermissions_word (solid : ∀ x ∈ word, isBlank x = false) : (takePermissions 0 (word ++ [' '])).1 = none := by
  induction word with
  | nil => rfl
  | cons c word ih =>
    have none : permissionsHere? (c :: (word ++ [' '])) = none := permissionsHere?_word solid
    rw [cons_append, takePermissions_miss none]
    exact ih fun x hx => solid x (mem_cons_of_mem c hx)

/-! ### Comments -/

theorem uncommented_sublist (inside : Bool) (s : List Char) : (uncommented inside s).Sublist s := by
  induction s generalizing inside with
  | nil => exact Sublist.refl []
  | cons c s ih =>
    unfold uncommented
    split
    · exact (ih _).cons c
    · split
      · exact (ih _).cons c
      · exact (ih _).cons_cons c

theorem stripComments_sublist (s : List Char) : (stripComments s).Sublist s :=
  (trim_sublist isBlank _).trans (uncommented_sublist false s)

/-! ## The two lines -/

def writeCode (name content : List Char) : List Char :=
  "write .".toList ++ ' ' :: (name ++ ' ' :: '"' :: (content ++ ['"']))

def readCode (name : List Char) : List Char := "read .".toList ++ ' ' :: name

theorem apart_writeFlags : ∀ c ∈ [' ', '"'], Apart c writeFlags := by
  unfold Apart
  exact all_iff_forall_prop.mp (by decide)

theorem apart_readFlags : Apart ' ' readFlags := by
  unfold Apart
  decide

theorem removeAll_writeCode (name content : List Char) :
    removeAll writeFlags (writeCode name content) = writeCode (removeAll writeFlags name) (removeAll writeFlags content) := by
  have blank := apart_writeFlags ' ' (by decide)
  have mark := apart_writeFlags '"' (by decide)
  have empty : removeAll writeFlags [] = [] := rfl
  have word : removeAll writeFlags "write .".toList = "write .".toList := by decide
  have start : ∀ s, removeAll writeFlags ('"' :: s) = '"' :: removeAll writeFlags s := fun s => removeAll_append mark [] s
  unfold writeCode
  rw [removeAll_append blank, removeAll_append blank, start, removeAll_append mark, word, empty]

theorem writeCode_eq (name content : List Char) :
    writeCode name content = ("write . ".toList ++ (name ++ [' '])) ++ '"' :: (content ++ ['"']) := by
  unfold writeCode
  simp

theorem takePermissions_writeCode (solid : ∀ x ∈ name, isBlank x = false) (content : List Char) :
    takePermissions 0 (writeCode name content) =
      ((takePermissions 0 content).1, writeCode name (takePermissions 0 content).2) := by
  have front : takePermissions 0 ("write . ".toList ++ (name ++ [' '])) = (none, "write . ".toList ++ (name ++ [' '])) := by
    refine takePermissions_of_none ?_
    have plain : '-' ∉ "write . ".toList := by decide
    rw [takePermissions_passes plain]
    exact takePermissions_word solid
  have empty : takePermissions 0 [] = (none, []) := rfl
  rw [writeCode_eq, writeCode_eq, takePermissions_append, front, takePermissions_append, empty, Option.none_or, Option.or_none]

/-- A modifier stands in the line if it stands in the name or in the text. -/
theorem holds_writeCode (blank : ' ' ∉ flag.toList) (mark : '"' ∉ flag.toList)
    (front : contains "write .".toList flag.toList = false) (name content : List Char) :
    Command.holds (writeCode name content) flag = (Command.holds name flag || Command.holds content flag) := by
  have empty : contains [] flag.toList = false := by
    refine Bool.eq_false_iff.mpr fun inside => ?_
    rw [infix_nil.mp (contains_iff_occurs.mp inside)] at front
    exact absurd front (by decide)
  have start : ∀ s, contains ('"' :: s) flag.toList = contains s flag.toList := by
    intro s
    have across := contains_append mark [] s
    rwa [empty, Bool.false_or] at across
  unfold Command.holds writeCode
  rw [contains_append blank, contains_append blank, start, contains_append mark, front, empty, Bool.false_or, Bool.or_false]

theorem strip_writeCode (name content : List Char) : strip (writeCode name content) = writeCode name content := by
  refine trim_eq_self ?_ ?_
  · intro c hc
    rw [← Option.some.inj hc]
    decide
  · intro c hc
    rw [writeCode_eq, ← cons_append, ← append_assoc, getLast?_concat] at hc
    rw [← Option.some.inj hc]
    decide

theorem wordsMax_writeCode (filled : name ≠ []) (solid : ∀ x ∈ name, isBlank x = false) (content : List Char) :
    wordsMax 3 (writeCode name content) = ["write".toList, ['.'], name, '"' :: (content ++ ['"'])] := by
  have first : ∀ x ∈ "write".toList, isBlank x = false := all_iff_forall_prop.mp (by decide)
  have dot : ∀ x ∈ ['.'], isBlank x = false := all_iff_forall_prop.mp (by decide)
  have mark : ∀ x ∈ ['"'], isBlank x = false := all_iff_forall_prop.mp (by decide)
  have shape : writeCode name content =
      "write".toList ++ ' ' :: (['.'] ++ ' ' :: (name ++ ' ' :: (['"'] ++ (content ++ ['"'])))) := rfl
  rw [shape, wordsMax_append (by decide) first (by decide), wordsMax_append (by decide) dot (by decide),
    wordsMax_append filled solid (by decide), wordsMax_zero (by decide) mark]
  rfl

/-- Writes a text to a file, once the line is read. -/
def writeTo (path content : List Char) (add plain create : Bool) (mode : Option (List Char)) : Run Unit := do
  let there := (← world).disk.isFile path
  if create && there then Act.say ("File already exists: " ++ String.ofList path)
  else
    let agreed ← if there && !add then mayOverwrite path else pure true
    if !agreed then Act.say "Write operation cancelled."
    else
      recover (storeFile path (if plain then stripComments content else content) add mode false) fun f =>
        if f.isKind .permission then broken (.writeDenied (String.ofList path))
        else broken (.writing (String.ofList path) f.message)

/-- Writes by the words of a line, once a mode is taken from it. -/
def writeWords (code : List Char) (add plain create importing : Bool) (mode : Option (List Char)) : Run Unit :=
  match wordsMax 3 (strip (removeAll writeFlags code)) with
  | [_, dir, name, content] => do
    let path := pathFrom dir name
    let shown := String.ofList path
    let there := (← world).disk.isFile path
    if create && there then
      if !importing then Act.say ("File already exists: " ++ shown)
    else
      let agreed ← if there && !add && !importing then mayOverwrite path else pure true
      if !agreed then Act.say "Write operation cancelled."
      else
        let content ← contentText content
        recover (storeFile path (if plain then stripComments content else content) add mode importing) fun f =>
          if f.isKind .permission then broken (.writeDenied shown) else broken (.writing shown f.message)
  | _ => malformed .writeForm

theorem writeCommand_eq (code : List Char) (importing : Bool) :
    writeCommand code importing =
      let taken := if Command.holds code "-permissions" then takePermissions 0 code else (none, code)
      if Command.holds code "-permissions" && taken.1.isNone then malformed .permissionsForm
      else writeWords taken.2 (Command.holds code "-add") (Command.holds code "-ign") (Command.holds code "-create") importing
        taken.1 := by
  have flag : contains code permissionsFlag = Command.holds code "-permissions" := by
    rfl
  unfold writeCommand writeWords writeFlags
  dsimp only
  rw [flag]
  -- the words stay as they are, whatever the line
  generalize wordsMax 3 = words
  cases Command.holds code "-permissions" with
  | false =>
    rw [if_neg Bool.false_ne_true, if_neg Bool.false_ne_true]
    refine (pure_bind _ _).trans ?_
    rcases words _ with _ | ⟨_, _ | ⟨dir, _ | ⟨name, _ | ⟨content, _ | _⟩⟩⟩⟩ <;> rfl
  | true =>
    rcases takePermissions 0 code with ⟨_ | mode, rest⟩
    · rfl
    · rw [if_pos rfl, if_pos rfl]
      refine (pure_bind _ _).trans ?_
      rcases words _ with _ | ⟨_, _ | ⟨dir, _ | ⟨name, _ | ⟨content, _ | _⟩⟩⟩⟩ <;> rfl

section

variable {name : List Char} (solid : ∀ x ∈ name, isBlank x = false) (left : removeAll writeFlags name ≠ [])

include solid left

theorem writeWords_writeCode (content : List Char) (add plain create : Bool) (mode : Option (List Char)) :
    writeWords (writeCode name content) add plain create false mode =
      writeTo (removeAll writeFlags name) (removeAll writeFlags content) add plain create mode := by
  have kept : ∀ x ∈ removeAll writeFlags name, isBlank x = false := fun x hx =>
    solid x ((removeAll_sublist (apart_writeFlags ' ' (by decide)) name).subset hx)
  have words : wordsMax 3 (strip (removeAll writeFlags (writeCode name content))) =
      ["write".toList, ['.'], removeAll writeFlags name, '"' :: (removeAll writeFlags content ++ ['"'])] := by
    rw [removeAll_writeCode, strip_writeCode, wordsMax_writeCode left kept]
  have here : pathFrom ['.'] (removeAll writeFlags name) = removeAll writeFlags name := rfl
  have quoted : contentText ('"' :: (removeAll writeFlags content ++ ['"'])) = pure (removeAll writeFlags content) := by
    have marks : isQuoted ('"' :: (removeAll writeFlags content ++ ['"'])) := by
      unfold isQuoted
      rw [← cons_append, getLast?_concat]
      rfl
    have inside : inner ('"' :: (removeAll writeFlags content ++ ['"'])) = removeAll writeFlags content :=
      dropLast_concat
    unfold contentText
    rw [marks, if_pos rfl, inside]
  unfold writeWords writeTo
  rw [words]
  dsimp only
  rw [here, quoted]
  simp only [pure_bind, Bool.not_false, Bool.and_true, if_true]

/-- The line writes what is left of its text to the file with what is left of its name. -/
theorem writeCommand_writeCode (content : List Char) :
    writeCommand (writeCode name content) false =
      let code := writeCode name content
      let taken := takePermissions 0 content
      if Command.holds code "-permissions" && taken.1.isNone then malformed .permissionsForm
      else writeTo (removeAll writeFlags name) (removeAll writeFlags taken.2) (Command.holds code "-add")
        (Command.holds code "-ign") (Command.holds code "-create") taken.1 := by
  rw [writeCommand_eq, takePermissions_writeCode solid]
  dsimp only
  cases flag : Command.holds (writeCode name content) "-permissions" with
  | false =>
    have bare : (takePermissions 0 content).1 = none := by
      refine Classical.byContradiction fun some => ?_
      have inside := (takePermissions_of_some some).1
      rw [holds_writeCode (by decide) (by decide) (by decide)] at flag
      exact Bool.eq_false_iff.mp (Bool.or_eq_false_iff.mp flag).2 inside
    rw [takePermissions_of_none bare]
    simp only [Bool.false_and, Bool.false_eq_true, if_false]
    exact writeWords_writeCode solid left content _ _ _ none
  | true =>
    rcases takePermissions 0 content with ⟨_ | mode, rest⟩
    · simp only [if_true, Option.isNone_none, Bool.and_self]
    · simp only [if_true, Option.isNone_some, Bool.and_false, Bool.false_eq_true, if_false]
      exact writeWords_writeCode solid left rest _ _ _ (some mode)

end

section

variable {name : List Char}

theorem holds_readCode (blank : ' ' ∉ flag.toList) (front : contains "read .".toList flag.toList = false)
    (name : List Char) : Command.holds (readCode name) flag = Command.holds name flag := by
  unfold Command.holds readCode
  rw [contains_append blank, front, Bool.false_or]

variable (filled : name ≠ []) (solid : ∀ x ∈ name, isBlank x = false)

include filled solid

theorem strip_readCode : strip (readCode name) = readCode name := by
  refine trim_eq_self ?_ ?_
  · intro c hc
    rw [← Option.some.inj hc]
    decide
  · intro c hc
    have last : (readCode name).getLast? = name.getLast? := by
      obtain ⟨d, name, rfl⟩ := exists_cons_of_ne_nil filled
      rfl
    exact solid c (mem_of_getLast? (last ▸ hc))

theorem wordsMax_readCode : wordsMax 2 (readCode name) = ["read".toList, ['.'], name] := by
  have first : ∀ x ∈ "read".toList, isBlank x = false := all_iff_forall_prop.mp (by decide)
  have dot : ∀ x ∈ ['.'], isBlank x = false := all_iff_forall_prop.mp (by decide)
  have last : wordsMax 0 name = [name] := by
    have whole := wordsMax_zero filled solid []
    rwa [append_nil] at whole
  have shape : readCode name = "read".toList ++ ' ' :: (['.'] ++ ' ' :: name) := rfl
  rw [shape, wordsMax_append (by decide) first (by decide), wordsMax_append (by decide) dot (by decide), last]

theorem readCommand_readCode (unmarked : ∀ flag ∈ readFlags, Command.holds name flag = false) :
    readCommand (readCode name) false =
      recover (showFile name false false false) fun f =>
        if f.isKind .fileNotFound then broken (.fileNotFound (String.ofList name))
        else if f.isKind .permission then broken (.readDenied (String.ofList name))
        else broken (.reading (String.ofList name) f.message) := by
  have held : ∀ flag ∈ readFlags, Command.holds (readCode name) flag = false := by
    intro flag h
    have parts : ' ' ∉ flag.toList ∧ contains "read .".toList flag.toList = false := by
      revert flag
      decide
    rw [holds_readCode parts.1 parts.2]
    exact unmarked flag h
  have kept : removeAll ["-ign", "-lines", "-size", "-exists"] (readCode name) = readCode name :=
    removeAll_eq_self apart_readFlags held
  unfold readCommand
  dsimp only
  rw [kept, strip_readCode filled solid, wordsMax_readCode filled solid]
  simp only [held "-exists" (by decide), held "-size" (by decide), held "-lines" (by decide), held "-ign" (by decide),
    Bool.false_eq_true, if_false]
  rfl

end

end LineScript.Run
