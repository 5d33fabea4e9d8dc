import LineScript.Proofs.DiskReach
import LineScript.Proofs.PackageNetwork
import LineScript.Proofs.Utf8Text
import LineScript.Tool.Files

/-!
# Encoding and decoding files

Bytes are read back from their digits in base 64, and a file that is encoded and then decoded is the same again if it is a
text; if it is none, decoding it is refused (`decoding_undoes_encoding`).
-/

namespace LineScript.Base64

open Text List

variable {n : Nat}

theorem exists_byte_digit (small : n < 64) :
    ∃ b : UInt8, encodeChar (digit n) = [b] ∧ b.toNat ≠ 61 ∧ value? b = some n := by
  have each : ∀ n < 64, encodeChar (digit n) = [UInt8.ofNat (digit n).toNat] ∧ (UInt8.ofNat (digit n).toNat).toNat ≠ 61 ∧
      value? (UInt8.ofNat (digit n).toNat) = some n := by decide
  exact ⟨_, each n small⟩

theorem decodeFrom_digit (small : n < 64) (held : List Nat) (pads done : Nat) (s : List Char) :
    decodeFrom held pads done (Text.encode (digit n :: s)) =
      match held with
      | [] => decodeFrom [n] 0 done (Text.encode s)
      | [a] => (decodeFrom [a, n] 0 (done + 1) (Text.encode s)).map (UInt8.ofNat (a * 4 + n / 16) :: ·)
      | [a, b] => (decodeFrom [a, b, n] 0 (done + 1) (Text.encode s)).map (UInt8.ofNat (b % 16 * 16 + n / 4) :: ·)
      | _ :: _ :: c :: _ => (decodeFrom [] 0 (done + 1) (Text.encode s)).map (UInt8.ofNat (c % 4 * 64 + n) :: ·) := by
  obtain ⟨b, stored, other, value⟩ := exists_byte_digit small
  rw [Text.encode, flatMap_cons, stored, singleton_append, decodeFrom.eq_def]
  dsimp only
  rw [if_neg other, value]
  rcases held with _ | ⟨a, _ | ⟨b, _ | ⟨c, held⟩⟩⟩ <;> rfl

/-- Three bytes at a time, and one or two at the end. -/
theorem decodeFrom_encode (bs : Bytes) (done : Nat) : decodeFrom [] 0 done (Text.encode (encode bs)) = .ok bs := by
  fun_induction encode bs generalizing done with
  | case1 => rfl
  | case2 a n =>
    have := a.toNat_lt
    simp (disch := omega) only [decodeFrom_digit]
    rw [ofNat_eq (b := a) (by omega)]
    rfl
  | case3 a b n =>
    have := a.toNat_lt
    have := b.toNat_lt
    simp (disch := omega) only [decodeFrom_digit]
    rw [ofNat_eq (b := a) (by omega), ofNat_eq (b := b) (by omega)]
    rfl
  | case4 a b c rest n ih =>
    have := a.toNat_lt
    have := b.toNat_lt
    have := c.toNat_lt
    simp (disch := omega) only [decodeFrom_digit, ih]
    rw [ofNat_eq (b := a) (by omega), ofNat_eq (b := b) (by omega), ofNat_eq (b := c) (by omega)]
    rfl

theorem decode_encode (bs : Bytes) : decode (Text.encode (encode bs)) = .ok bs := decodeFrom_encode bs 0

end LineScript.Base64

namespace LineScript

/-- The world after something has been shown and lines have been typed, with `rest` still to come. -/
structure Typed.After (w : World) (rest : List Typed) (v : World) : Prop where
  disk : v.disk = w.disk
  input : v.input = rest
  shown : w.Shown v

namespace Typed.After

variable {w v : World} {rest : List Typed} {α : Type} {post : α → World → Prop} {stop : Stop → World → Prop}

theorem adds (h : After w rest v) (text : String) : After w rest { v with output := v.output ++ text } :=
  ⟨h.disk, h.input, h.shown.append text⟩

theorem say {k : Unit → Act α} (h : After w rest v) {text : String} (go : ∀ u, After w rest u → Leads (k ()) u post stop) :
    Leads (Act.say text >>= k) v post stop := .bind (.modify (go _ (h.adds _)))

theorem ask {k : String → Act α} {line prompt : String} (h : After w (.line line :: rest) v)
    (go : ∀ u, After w rest u → Leads (k line) u post stop) : Leads (Act.ask prompt >>= k) v post stop := by
  refine .bind (Act.leads_ask (fun line' rest' typed => ?_) (fun none => ?_) fun rest' broken => ?_)
  · cases h.input.symm.trans typed
    exact go _ ⟨h.disk, rfl, h.shown.append prompt⟩
  · cases h.input.symm.trans none
  · cases h.input.symm.trans broken

end Typed.After

namespace Tool

open Text

variable {w v : World} {n : Int} {path : List Char} {rest : List Typed} {bs : Bytes} {e : Disk}

/-- The user types a number and a path. -/
def Asks (w : World) (n : Int) (path : List Char) (rest : List Typed) : Prop :=
  ∃ number file, w.input = .line number :: .line file :: rest ∧ Value.toInt (.str number) = .ok (.int n) ∧
    strip file.toList = path

/-- The user agrees to save the result, if there is one, and that leads to the disk `e`. -/
def Saves (coding : Coding) (bs : Bytes) (path : List Char) (rest : List Typed) (d e : Disk) : Prop :=
  ∀ result, coding.apply bs = .ok result → (∃ yes more, rest = .line yes :: more ∧ lower yes.toList = ['y']) ∧
    d.write (path ++ coding.ending.toList) (encode result) = .ok e

theorem leads_codeFile (coding : Coding) {number file : String}
    (after : Typed.After w (.line number :: .line file :: rest) v) (read : Value.toInt (.str number) = .ok (.int n))
    (held : w.disk.read (strip file.toList) = .ok bs) (chosen : Coding.ofNumber? n = some coding)
    (saves : Saves coding bs (strip file.toList) rest w.disk e) :
    Leads codeFile v (fun _ u => u.disk = e ∧ ∃ result, coding.apply bs = .ok result)
      fun reason u => ∃ f, reason = .fault f ∧ coding.apply bs = .error f ∧ Typed.After w rest u := by
  refine .bind (after.ask fun v after => ?_)
  rw [read]
  refine .bind (.pure (.pure (.bind (after.ask fun v after => .pure ?_))))
  refine .bind (.bind (.get (Act.leads_check (fun bytes same => ?_) fun f failed => ?_)))
  · rw [after.disk] at same
    cases held.symm.trans same
    rw [chosen]
    refine .bind (Act.leads_check (fun result coded => ?_) fun f failed => ⟨f, rfl, failed, after⟩)
    obtain ⟨⟨yes, more, rfl, agreed⟩, saved⟩ := saves result coded
    refine after.say fun v after => after.say fun v after => after.say fun v after => after.say fun v after => ?_
    refine .bind (after.ask fun v after => .pure ?_)
    rw [agreed]
    refine .bind (Act.leads_alter (fun e' written => ?_) fun f failed => ?_)
    · rw [after.disk] at written
      cases saved.symm.trans written
      exact .modify ⟨rfl, result, coded⟩
    · rw [after.disk] at failed
      cases saved.symm.trans failed
  · rw [after.disk] at failed
    cases held.symm.trans failed

/-- The result is saved if there is one. If there is none, that is told and nothing else is done. -/
theorem exists_fileCoder (coding : Coding) (asks : Asks w n path rest) (held : w.disk.read path = .ok bs)
    (chosen : Coding.ofNumber? n = some coding) (saves : Saves coding bs path rest w.disk e) :
    ∃ v, fileCoder.run.run w = (.ok (), v) ∧ (∀ result, coding.apply bs = .ok result → v.disk = e) ∧
      ∀ f, coding.apply bs = .error f →
        v.disk = w.disk ∧ ∃ shown, v.output = w.output ++ (shown ++ ("! Error: " ++ f.message ++ "\n")) := by
  obtain ⟨number, file, typed, read, rfl⟩ := asks
  have start : Typed.After w (.line number :: .line file :: rest) w := ⟨rfl, typed, .refl w⟩
  refine Exists.elim (Leads.exists_run (x := fileCoder) ?_) fun _ => id
  refine .bind (start.say fun v after => after.say fun v after => .modify ((after.adds _).say fun v after => ?_))
  refine .tryCatch ((leads_codeFile coding after read held chosen saves).mono ?_ ?_)
  · rintro _ u ⟨saved, result, coded⟩
    exact ⟨fun _ _ => saved, fun f failed => by cases coded.symm.trans failed⟩
  · rintro _ u ⟨f, rfl, failed, disk, -, more, shown⟩
    refine .modify ⟨fun result coded => (by cases coded.symm.trans failed), fun g same => ?_⟩
    cases failed.symm.trans same
    exact ⟨disk, more, by rw [shown, String.append_assoc]⟩

/-- **Decoding a file that was encoded gives the file back if it is text.** If it is not, decoding is refused and the disk stays
as it is. -/
theorem decoding_undoes_encoding {w : World} {path : List Char} {yes : String} {rest : List Typed} {bytes : Bytes} {d : Disk}
    (asks : Asks w 1 path (.line yes :: rest)) (agreed : lower yes.toList = ['y']) (held : w.disk.read path = .ok bytes)
    (saved : w.disk.write (path ++ ".enc".toList) (encode (Base64.encode bytes)) = .ok d) :
    (∃ v, fileCoder.run.run w = (.ok (), v) ∧ v.disk = d) ∧
    ∀ v more, v.disk = d → Asks v 2 (path ++ ".enc".toList) more →
      ((∃ text, bytes = encode text) → ∀ yes rest e, more = .line yes :: rest → lower yes.toList = ['y'] →
        d.write (path ++ ".enc.dec".toList) bytes = .ok e →
          (∃ u, fileCoder.run.run v = (.ok (), u) ∧ u.disk = e) ∧ e.read (path ++ ".enc.dec".toList) = .ok bytes) ∧
      ((¬ ∃ text, bytes = encode text) → ∃ u shown message, fileCoder.run.run v = (.ok (), u) ∧ u.disk = d ∧
        u.output = v.output ++ (shown ++ ("! Error: " ++ message ++ "\n"))) := by
  constructor
  · have saves : Saves .encode bytes path (.line yes :: rest) w.disk d := by
      rintro result ⟨⟩
      exact ⟨⟨yes, rest, rfl, agreed⟩, saved⟩
    obtain ⟨v, ran, ended, -⟩ := exists_fileCoder .encode asks held rfl saves
    exact ⟨v, ran, ended _ rfl⟩
  · rintro v more rfl asks
    have held := Disk.read_of_write saved
    have decoded : Coding.decode.apply (encode (Base64.encode bytes)) = Value.decodeUtf8 bytes := by
      unfold Coding.apply
      rw [Base64.decode_encode]
    refine ⟨?_, fun other => ?_⟩
    · rintro ⟨text, rfl⟩ yes rest e rfl agreed saved
      rw [Value.decodeUtf8_encode] at decoded
      have saves : Saves .decode (encode (Base64.encode (encode text))) (path ++ ".enc".toList) (.line yes :: rest) v.disk e := by
        intro result coded
        cases decoded.symm.trans coded
        rw [List.append_assoc]
        exact ⟨⟨yes, rest, rfl, agreed⟩, saved⟩
      obtain ⟨u, ran, ended, -⟩ := exists_fileCoder .decode asks held rfl saves
      exact ⟨⟨u, ran, ended _ decoded⟩, Disk.read_of_write saved⟩
    · cases failed : Value.decodeUtf8 bytes with
      | ok text => exact absurd ⟨text, Value.decodeUtf8_eq_ok_iff.mp failed⟩ other
      | error f =>
        rw [failed] at decoded
        have saves : Saves .decode (encode (Base64.encode bytes)) (path ++ ".enc".toList) more v.disk [] :=
          fun result coded => by cases decoded.symm.trans coded
        obtain ⟨u, ran, -, ended⟩ := exists_fileCoder .decode asks held rfl saves
        obtain ⟨same, shown, told⟩ := ended f decoded
        exact ⟨u, shown, f.message, ran, same, told⟩

/-- A file with one character and what else there is, and what the user types. -/
def accented (more : Disk) (number path : String) : World where
  disk := ("a", .file (encode ['é']) 0o644) :: more
  input := [.line number, .line path, .line "Y"]

theorem decoding_undoes_encoding_accent :
    ∃ u, fileCoder.run.run (accented [("a.enc", .file (encode (Base64.encode (encode ['é']))) Disk.newMode)] "2" " a.enc") =
      (.ok (), u) ∧ u.disk.read "a.enc.dec".toList = .ok (encode ['é']) := by
  have asks : Asks (accented [] "1" "a") 1 ['a'] [.line "Y"] := ⟨"1", "a", rfl, by rfl, by rfl⟩
  obtain ⟨-, later⟩ := decoding_undoes_encoding asks (by decide) (by rfl) (by rfl)
  have again : Asks (accented [("a.enc", .file (encode (Base64.encode (encode ['é']))) Disk.newMode)] "2" " a.enc") 2
      "a.enc".toList [.line "Y"] := ⟨"2", " a.enc", rfl, by rfl, by rfl⟩
  obtain ⟨⟨u, ran, ended⟩, read⟩ := (later _ _ rfl again).1 ⟨['é'], rfl⟩ "Y" [] _ rfl (by decide) (by rfl)
  exact ⟨u, ran, ended ▸ read⟩

end Tool

end LineScript
