/-!
# Intcode.Text.Visible

What is left of a text when the control sequences of terminals are taken out, for a place that
is none.

* `emphasized` — a text between sequences that set it off from what is around it.
* `visible`    — the characters of a text that belong to no control sequence.
* `visible_of_all_shown` — a text without controls is left as it is.

A sequence begins with the escape character; what follows tells how it goes on and where it ends.
A blank control that would take effect in the middle of a sequence is kept, and interrupts it.
-/

namespace Intcode
namespace Text

/-- How far a control sequence has come. -/
inductive Sequence where
  /-- Behind the escape character and, if `marked`, signs that leave one last character. -/
  | escape (marked : Bool)
  /-- Among the parameters of a command, which a letter ends. -/
  | command
  /-- In a text for the terminal itself, which a bell ends. -/
  | title
  /-- At the parameters of a device string: at the first one, at a later one, or behind them. -/
  | deviceStart
  | deviceParameters
  | deviceSigns
  | body
deriving Repr, DecidableEq

/-- Where a text stands between control sequences and what is shown. -/
inductive Reading where
  | plain
  /-- A blank control has interrupted the sequence; the next other control resumes it. -/
  | interrupted (s : Sequence)
  | inside (s : Sequence)
deriving Repr, DecidableEq

def isBlankControl (c : Char) : Bool := c = '\t' || c = '\n' || c = '\x0c' || c = '\r'

/-- Whether a character is shown outside of control sequences. -/
def isShown (c : Char) : Bool := (32 ≤ c.toNat && c.toNat ≠ 127) || isBlankControl c

/-- Whether the terminator of strings is among the bytes that encode a character. -/
def hasTerminator (c : Char) : Bool := (String.utf8EncodeChar c).contains 0x9C

namespace Sequence

/-- Whether blank controls take effect in the middle of a sequence. -/
def keepsBlanks : Sequence → Bool
  | escape _ | command => true
  | _ => false

/-- The sequence behind a character that neither ends all sequences nor begins one; none if the
sequence ends with it. -/
def next (s : Sequence) (c : Char) : Option Sequence :=
  let n := c.toNat
  match s with
  | escape marked =>
    if n < 0x20 ∨ 0x7F ≤ n then some s
    else if n < 0x30 then some (escape true)
    else if marked then none
    else
      match c with
      | '[' => some command
      | ']' => some title
      | 'P' => some deviceStart
      | 'X' | '^' | '_' => some body
      | _ => none
  | command => if 0x40 ≤ n ∧ n < 0x7F then none else some command
  | title => if n = 0x07 then none else some title
  | deviceStart =>
    if n < 0x20 ∨ 0x7F ≤ n then some s
    else if n < 0x30 then some deviceSigns
    else if n < 0x40 then some deviceParameters
    else some body
  | deviceParameters =>
    if n < 0x20 ∨ 0x7F ≤ n then some s
    else if n < 0x30 then some deviceSigns
    else if n < 0x3C then some deviceParameters
    else some body
  | deviceSigns => if n < 0x30 ∨ 0x7F ≤ n then some s else some body
  | body => if hasTerminator c then none else some body

/-- The reading behind a character that belongs to a sequence. -/
def advance (s : Sequence) (c : Char) : Reading :=
  match c with
  | '\x1b' => .inside (escape false)
  | '\x18' | '\x1a' => .plain
  | c =>
    match s.next c with
    | none => .plain
    | some s => .inside s

end Sequence

namespace Reading

/-- The reading behind a character, and whether the character is shown. -/
def next (r : Reading) (c : Char) : Reading × Bool :=
  match r with
  | plain =>
    if c = '\x1b' then (inside (.escape false), false) else (plain, isShown c)
  | interrupted s =>
    if 127 < c.toNat then (plain, true)
    else if isShown c then (interrupted s, true)
    else (s.advance c, false)
  | inside s =>
    if s.keepsBlanks && isBlankControl c then (interrupted s, true) else (s.advance c, false)

def visible : Reading → List Char → List Char
  | _, [] => []
  | r, c :: rest =>
    let (r, shown) := r.next c
    if shown then c :: visible r rest else visible r rest

end Reading

/-- The characters of a text that belong to no control sequence and are shown. -/
def visible (s : List Char) : List Char := Reading.plain.visible s

def emphasized (s : List Char) : List Char :=
  '\x1b' :: "[1m".toList ++ s ++ '\x1b' :: "[0m".toList

theorem visible_of_all_shown {s : List Char} (shown : s.all isShown = true) : visible s = s := by
  induction s with
  | nil => rfl
  | cons c rest ih =>
    simp only [List.all_cons, Bool.and_eq_true] at shown
    have plain : c ≠ '\x1b' := by rintro rfl; simp [isShown, isBlankControl] at shown
    have step : Reading.plain.next c = (.plain, true) := by
      simp [Reading.next, plain, shown.1]
    have tail : Reading.plain.visible rest = rest := ih shown.2
    simp [visible, Reading.visible, step, tail]

end Text
end Intcode
