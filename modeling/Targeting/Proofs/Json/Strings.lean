import Targeting.Json.Reader
import Targeting.Json.Writer

/-!
# Strings and blanks in JSON text

A character is written as one that stands for itself, as a backslash with a letter, or as a backslash
with four hexadecimal digits, and each of the three is read as the character again. So is a string,
whatever follows its closing quote.

## Main results

* `Json.readChars?_writeChar` — a character that was written is read
* `Json.readString?_write` — a string that was written is read
* `Json.writeString_append` — a string is written in the same way whatever follows
* `Json.skipBlanks_writeBreak` — a line break with its indentation is skipped
-/

namespace Targeting.Json

/-! ### Strings -/

/-- Two hexadecimal digits are enough for a control character. -/
theorem hexNumber?_hexDigit : ∀ n < 0x20,
    Digit.hexNumber? ['0', '0', hexDigit (n / 16), hexDigit n] = some n := by
  decide

theorem ofUnit?_toNat {c : Char} (h : c.toNat < 0x20) : ofUnit? c.toNat = some c := by
  rw [ofUnit?, if_neg (by omega), Char.ofNat_toNat]

theorem readChars?_writeChar (c : Char) (done rest : List Char) :
    readChars? done (writeChar c rest) = readChars? (c :: done) rest := by
  unfold writeChar
  -- the letters that stand for characters, one after the other
  iterate 7 (split; · next h => subst h; rfl)
  split
  · next hcontrol =>
    rw [readChars?, hexNumber?_hexDigit c.toNat hcontrol]
    dsimp only
    rw [ofUnit?_toNat hcontrol]
  · next hquote hbackslash _ _ _ _ _ hcontrol =>
    rw [readChars?.eq_4 done c rest hquote (fun _ _ _ _ _ h => absurd h hbackslash)
      fun _ _ h => absurd h hbackslash]
    exact if_neg hcontrol

theorem readChars?_foldr_writeChar (cs done rest : List Char) :
    readChars? done (cs.foldr writeChar ('"' :: rest)) = some (done.reverse ++ cs, rest) := by
  induction cs generalizing done with
  | nil => rw [List.foldr_nil, readChars?, List.append_nil]
  | cons c cs ih =>
    rw [List.foldr_cons, readChars?_writeChar, ih, List.reverse_cons, List.append_assoc,
      List.singleton_append]

/-- Behind the opening quote a string is read up to the closing one. -/
theorem readString?_write (s : String) (rest : List Char) :
    readString? (s.toList.foldr writeChar ('"' :: rest)) = some (s, rest) := by
  rw [readString?, readChars?_foldr_writeChar]
  simp

/-- A string is written in the same way whatever follows. -/
theorem writeString_append (s : String) (rest more : List Char) :
    writeString s (rest ++ more) = writeString s rest ++ more := by
  have hchar : ∀ (c : Char) (rest : List Char),
      writeChar c (rest ++ more) = writeChar c rest ++ more := by
    intro c rest
    unfold writeChar
    iterate 8 (split; · rfl)
    rfl
  have hchars : ∀ cs : List Char,
      cs.foldr writeChar ('"' :: (rest ++ more)) = cs.foldr writeChar ('"' :: rest) ++ more := by
    intro cs
    induction cs with
    | nil => rfl
    | cons c cs ih => rw [List.foldr_cons, List.foldr_cons, ih, hchar]
  rw [writeString, writeString, hchars, List.cons_append]

/-! ### Blanks -/

theorem skipBlanks_cons {c : Char} (h : isBlank c = false) (rest : List Char) :
    skipBlanks (c :: rest) = c :: rest := by
  rw [skipBlanks, List.dropWhile_cons, h]
  rfl

theorem skipBlanks_blank {c : Char} (h : isBlank c = true) (rest : List Char) :
    skipBlanks (c :: rest) = skipBlanks rest := by
  rw [skipBlanks, List.dropWhile_cons, if_pos h]
  rfl

theorem writeBreak_append (level : Nat) (rest more : List Char) :
    writeBreak level (rest ++ more) = writeBreak level rest ++ more := by
  rw [writeBreak, writeBreak, List.cons_append, List.append_assoc]

theorem skipBlanks_writeBreak (level : Nat) (rest : List Char) :
    skipBlanks (writeBreak level rest) = skipBlanks rest := by
  rw [writeBreak, skipBlanks_blank rfl, skipBlanks, skipBlanks,
    List.dropWhile_append_of_pos fun c hc => by rw [List.eq_of_mem_replicate hc]; rfl]

end Targeting.Json
