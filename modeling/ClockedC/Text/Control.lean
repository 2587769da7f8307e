/-!
# Terminal controls

A text may hold characters that a terminal does not show but obeys: single control characters, and sequences that
begin with an escape character. Plain text is what is left without them.

* `isShown` : the characters that stand for themselves;
* `ControlMode` : how far a sequence has been read;
* `withoutControls` : a text without its controls.

A layout character inside a sequence is kept, and what comes after it is text again up to the next control
character, with which the sequence goes on.
-/

namespace ClockedC.Text

/-! ## Characters -/

/-- The control characters that lay out a text: tab, newline, form feed and carriage return. -/
def isLayout (c : Char) : Bool := c = '\t' || c = '\n' || c = '\x0c' || c = '\r'

/-- Whether a character stands for itself. Beyond ASCII all do. -/
def isShown (c : Char) : Bool := isLayout c || (32 ≤ c.toNat && c.toNat ≠ 127)

/-- Whether the code of a character lies between two numbers, both included. -/
def codeWithin (low high : Nat) (c : Char) : Bool := low ≤ c.toNat && c.toNat ≤ high

/-- Space, punctuation up to the slash: marks in front of what ends a sequence. -/
def isMark (c : Char) : Bool := codeWithin 0x20 0x2F c

/-- Whether a character ends a message: it has the byte `9C` in its encoding. -/
def endsMessage (c : Char) : Bool := (String.utf8EncodeChar c).contains 0x9C

/-! ## Modes -/

/-- How far a sequence has been read. -/
inductive ControlMode where
  /-- No sequence is open. -/
  | text
  /-- Behind an escape character. -/
  | escape
  /-- Behind an escape character and marks. -/
  | escapeMarks
  /-- In a control sequence, which a letter ends. -/
  | sequence
  /-- In a command to the system, which a bell ends. -/
  | command
  /-- At the beginning of a message to the device. -/
  | deviceStart
  /-- In the numbers of a message to the device. -/
  | deviceNumbers
  /-- In the marks of a message to the device. -/
  | deviceMarks
  /-- In the body of a message. -/
  | message
  deriving DecidableEq, Repr

namespace ControlMode

/-- The mode behind an escape character and then `c`. -/
def afterEscape (c : Char) : ControlMode :=
  if c = '[' then sequence
  else if c = ']' then command
  else if c = 'P' then deviceStart
  else if c = 'X' || c = '^' || c = '_' then message
  else if isMark c then escapeMarks
  else if codeWithin 0x30 0x7E c then text
  else escape

/-- The mode behind `c`. An escape character begins a new sequence wherever it stands, and the characters cancel
and substitute end any. -/
def next (mode : ControlMode) (c : Char) : ControlMode :=
  if c = '\x1b' then escape
  else if c = '\x18' || c = '\x1a' then text
  else
    match mode with
    | text => text
    | escape => afterEscape c
    | escapeMarks => if codeWithin 0x30 0x7E c then text else escapeMarks
    | sequence => if codeWithin 0x40 0x7E c then text else sequence
    | command => if c = '\x07' then text else command
    | deviceStart =>
      if isMark c then deviceMarks
      else if codeWithin 0x30 0x3F c then deviceNumbers
      else if codeWithin 0x40 0x7E c then message
      else deviceStart
    | deviceNumbers =>
      if isMark c then deviceMarks
      else if codeWithin 0x3C 0x7E c then message
      else deviceNumbers
    | deviceMarks => if codeWithin 0x30 0x7E c then message else deviceMarks
    | message => if endsMessage c then text else message

/-- Whether `c` is kept: in a text all that is shown, in a sequence its layout, in a command or a message
nothing. -/
def keeps (mode : ControlMode) (c : Char) : Bool :=
  match mode with
  | text => isShown c
  | escape => isLayout c
  | escapeMarks => isLayout c
  | sequence => isLayout c
  | _ => false

end ControlMode

/-! ## Plain text -/

/-- What is shown of a text; `resumed` tells that the character before was kept, so that this one is text
whatever the mode. A character beyond ASCII ends a sequence that was left open that way. -/
def shownFrom : ControlMode → Bool → List Char → List Char
  | _, _, [] => []
  | mode, resumed, c :: cs =>
    if resumed && isShown c then
      c :: shownFrom (if c.toNat < 128 then mode else .text) true cs
    else if mode.keeps c then
      c :: shownFrom (mode.next c) true cs
    else
      shownFrom (mode.next c) false cs

/-- A text without its controls. -/
def withoutControls (text : String) : String := String.ofList (shownFrom .text false text.toList)

end ClockedC.Text
