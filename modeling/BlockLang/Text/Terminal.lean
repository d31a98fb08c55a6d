import BlockLang.Text.Blank

/-!
# Texts on a terminal

A terminal does not show the control characters of ASCII, tabs and line breaks excepted, nor what it
takes for a command: an escape character begins a sequence that goes on up to a character of a kind
that depends on how the sequence began. A text that is shown to a user without those characters
cannot command the user's terminal.
-/

namespace BlockLang.Terminal

/-! ## Characters -/

/-- The control characters that only move on in a text. -/
def isSpacing (c : Char) : Bool := c == '\t' || c == '\n' || c == '\x0C' || c == '\r'

/-- The characters that a terminal shows where it expects no command. -/
def isPlain (c : Char) : Bool := isSpacing c || (0x20 ≤ c.toNat && c.toNat != 0x7F)

/-- The characters that may stand between the beginning of a sequence and its last character. -/
def isIntermediate (c : Char) : Bool := 0x20 ≤ c.toNat && c.toNat ≤ 0x2F

/-- The characters of the parameters of a sequence. -/
def isParameter (c : Char) : Bool := 0x30 ≤ c.toNat && c.toNat ≤ 0x3F

/-- The parameter characters that may only come first. -/
def isPrivate (c : Char) : Bool := 0x3C ≤ c.toNat && c.toNat ≤ 0x3F

/-- The characters that a sequence with parameters can end with. -/
def isFinal (c : Char) : Bool := 0x40 ≤ c.toNat && c.toNat ≤ 0x7E

/-- Whether the byte that ends a string is among the bytes of a character. -/
def endsString (c : Char) : Bool := (String.utf8EncodeChar c).contains 0x9C

/-! ## Modes -/

/-- How much has been read of what stands before the last character of a sequence. -/
inductive Header where
  | start
  | parameters
  | intermediates
  | invalid
  deriving DecidableEq, Repr

inductive Mode where
  | text
  /-- What follows an escape character. -/
  | escape
  | escapeIntermediates
  | controlSequence (header : Header)
  | deviceHeader (header : Header)
  | deviceString
  | systemCommand
  /-- A string without a meaning to the terminal. -/
  | message
  deriving DecidableEq, Repr

/-- Reads one more character before the last one of a sequence. -/
def Header.next (c : Char) : Header → Header
  | .start =>
    if isIntermediate c then .intermediates else if isParameter c then .parameters else .start
  | .parameters =>
    if isIntermediate c then .intermediates else if isPrivate c then .invalid else .parameters
  | .intermediates => if isParameter c then .invalid else .intermediates
  | .invalid => .invalid

/-- What the character after an escape character begins. -/
def Mode.afterEscape (c : Char) : Mode :=
  if isIntermediate c then .escapeIntermediates
  else if c = '[' then .controlSequence .start
  else if c = 'P' then .deviceHeader .start
  else if c = ']' then .systemCommand
  else if c = 'X' ∨ c = '^' ∨ c = '_' then .message
  else if isParameter c ∨ isFinal c then .text
  else .escape

/-- Reads a character that is not shown; three control characters count in every mode. -/
def Mode.next (c : Char) (m : Mode) : Mode :=
  if c = '\x18' ∨ c = '\x1A' then .text
  else if c = '\x1B' then .escape
  else
    match m with
    | .text => .text
    | .escape => afterEscape c
    | .escapeIntermediates => if isParameter c ∨ isFinal c then .text else .escapeIntermediates
    | .controlSequence h => if isFinal c then .text else .controlSequence (h.next c)
    | .deviceHeader h =>
      if isFinal c ∨ h.next c = .invalid then .deviceString else .deviceHeader (h.next c)
    | .deviceString => if endsString c then .text else .deviceString
    | .systemCommand => if c = '\x07' then .text else .systemCommand
    | .message => if endsString c then .text else .message

def Mode.shows (c : Char) : Mode → Bool
  | .text => isPlain c
  | .escape | .escapeIntermediates | .controlSequence _ => isSpacing c
  | .deviceHeader _ | .deviceString | .systemCommand | .message => false

/-! ## Showing a text -/

/-- A terminal that shows a text. A spacing character inside a sequence interrupts it: what follows
is shown as plain text, up to the next character that plain text does not show. -/
structure Display where
  mode : Mode
  /-- Whether the last character was shown. -/
  isShowing : Bool
  deriving DecidableEq, Repr

namespace Display

def initial : Display := ⟨.text, false⟩

def shows (d : Display) (c : Char) : Bool := (if d.isShowing then .text else d.mode).shows c

/-- Reads a character; one that is shown and not of ASCII breaks off an interrupted sequence. -/
def next (d : Display) (c : Char) : Display :=
  if d.shows c then ⟨if c.toNat < 0x80 then d.mode else .text, true⟩ else ⟨d.mode.next c, false⟩

def visible (d : Display) : Text → Text
  | [] => []
  | c :: t => if d.shows c then c :: (d.next c).visible t else (d.next c).visible t

end Display

def shown (t : Text) : Text := Display.initial.visible t

end BlockLang.Terminal
