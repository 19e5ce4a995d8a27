import QueryComposer.Text.Quoted

/-!
# Texts for a terminal

A terminal takes some controls for commands: it rings, moves the cursor or changes the colour of
what follows.  A log shows such a control by its number instead, so that no text from outside can
act on the terminal of the reader.  Line ends, tabs and the other controls stay, and so does the
backslash, which is why the shown form cannot always be read back.

The main statement is `isCommand_of_mem_forTerminal`: what is shown holds no command.
-/

namespace QueryComposer.Text

/-- The ASCII controls that a terminal acts upon: bell, backspace, form feed, escape, delete. -/
def isAsciiCommand (c : Char) : Bool :=
  c = '\x07' ∨ c = '\x08' ∨ c = '\x0c' ∨ c = '\x1b' ∨ c = '\x7f'

/-- The second block of controls, each of which stands for escape and a letter. -/
def isHighControl (c : Char) : Bool := 0x80 ≤ c.toNat ∧ c.toNat ≤ 0x9F

/-- Whether a terminal may take the character for a command. -/
def isCommand (c : Char) : Bool := isAsciiCommand c || isHighControl c

/-- The number of an ASCII character in two lower-case hexadecimal digits after `\x`. -/
def numberedAscii (c : Char) : List Char :=
  ['\\', 'x', Nat.digitChar (c.toNat / 16), Nat.digitChar (c.toNat % 16)]

/-- A character as a log shows it. -/
def terminalChar (c : Char) : List Char :=
  if isAsciiCommand c then numberedAscii c
  else if isHighControl c then numbered c
  else [c]

/-- The text as a log shows it. -/
def forTerminal (s : String) : String :=
  String.ofList (s.toList.flatMap terminalChar)

/-- A character that is no command is shown as it is. -/
theorem terminalChar_of_not_isCommand {c : Char} (h : isCommand c = false) :
    terminalChar c = [c] := by
  simp only [isCommand, Bool.or_eq_false_iff] at h
  simp [terminalChar, h.1, h.2]

theorem toNat_lt_of_isCommand {c : Char} (h : isCommand c = true) : c.toNat < 160 := by
  simp only [isCommand, isAsciiCommand, isHighControl, Bool.or_eq_true, decide_eq_true_eq] at h
  rcases h with h | h
  · rcases h with rfl | rfl | rfl | rfl | rfl <;> decide
  · omega

/-- No character is shown as a command. -/
theorem isCommand_of_mem_terminalChar {c d : Char} (h : d ∈ terminalChar c) :
    isCommand d = false := by
  cases hc : isCommand c with
  | false =>
    rw [terminalChar_of_not_isCommand hc, List.mem_singleton] at h
    rw [h, hc]
  | true =>
    have small : (List.range 160).all fun n =>
        (terminalChar (Char.ofNat n)).all fun d => !isCommand d := by
      decide +kernel
    have all := List.all_eq_true.1 small c.toNat (List.mem_range.2 (toNat_lt_of_isCommand hc))
    rw [Char.ofNat_toNat] at all
    simpa using List.all_eq_true.1 all d h

/-- What a log shows holds no command. -/
theorem isCommand_of_mem_forTerminal {s : String} {c : Char} (h : c ∈ (forTerminal s).toList) :
    isCommand c = false := by
  rw [forTerminal, String.toList_ofList, List.mem_flatMap] at h
  obtain ⟨_, _, hc⟩ := h
  exact isCommand_of_mem_terminalChar hc

end QueryComposer.Text
